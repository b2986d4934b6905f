import AnnealProver.Text.Intervals

/-!
# Blank characters

The characters that may stand between the tokens of a formula, and that `trim` takes off the ends
of a text: the white space of Unicode together with the four information separators.
-/

namespace AnnealProver.Text

/-- The blank characters, ASCII included. -/
def blanks : Intervals :=
  [
  (0x9, 0xd), (0x1c, 0x20), (0x85, 0x85), (0xa0, 0xa0), (0x1680, 0x1680),
  (0x2000, 0x200a), (0x2028, 0x2029), (0x202f, 0x202f), (0x205f, 0x205f), (0x3000, 0x3000)]

/-- Whether the character is blank. -/
def isBlank (c : Char) : Bool :=
  blanks.contains c.toNat

/-- Takes the blanks off the front. -/
def trimStart (cs : List Char) : List Char :=
  cs.dropWhile isBlank

/-- Takes the blanks off the end. -/
def trimEnd (cs : List Char) : List Char :=
  (trimStart cs.reverse).reverse

/-- Takes the blanks off both ends. -/
def trim (text : String) : String :=
  String.ofList (trimEnd (trimStart text.toList))

/-- Whether nothing but blanks is written. -/
def blank (text : String) : Bool :=
  text.toList.all isBlank

end AnnealProver.Text
