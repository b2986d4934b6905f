import AnnealProver.Text.Cut

/-!
# Columns

Table cells have a least width, filled up with spaces.
-/

namespace AnnealProver.Text

/-- Fills up on the right. -/
def padRight (width : Nat) (text : String) : String :=
  text ++ repeated (width - text.length) " "

/-- Fills up on the left. -/
def padLeft (width : Nat) (text : String) : String :=
  repeated (width - text.length) " " ++ text

/-- Fills up on both sides; an odd space goes to the right. -/
def centre (width : Nat) (text : String) : String :=
  let free := width - text.length
  repeated (free / 2) " " ++ text ++ repeated (free - free / 2) " "

end AnnealProver.Text
