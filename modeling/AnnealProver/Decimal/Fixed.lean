import AnnealProver.Decimal.Binary
import AnnealProver.Text.Column

/-!
# Fixed places

A double with a fixed number of places after the point: its exact value rounded to the nearest
multiple of the last place, a half to the even neighbour.
-/

namespace AnnealProver.Decimal

/-- A count of last places, written with a point. -/
def point (places units : Nat) : String :=
  let digits := toString units
  let digits := Text.repeated (places + 1 - digits.length) "0" ++ digits
  if places == 0 then digits
  else Text.left (digits.length - places) digits ++ "." ++
    Text.afterFirst (digits.length - places) digits

/-- The multiple of the last place nearest to `mantissa * 2 ^ exponent`. -/
def unitsOf (places mantissa : Nat) (exponent : Int) : Nat :=
  if exponent < 0 then
    roundHalfEven (mantissa * Nat.pow 10 places) (Nat.pow 2 (-exponent).toNat)
  else mantissa * Nat.pow 2 exponent.toNat * Nat.pow 10 places

/-- A double with a fixed number of places. -/
def fixed (places : Nat) (x : Float) : String :=
  match Binary.ofFloat x with
  | .notANumber => "nan"
  | .infinite negative => if negative then "-inf" else "inf"
  | .finite negative mantissa exponent =>
    (if negative then "-" else "") ++ point places (unitsOf places mantissa exponent)

/-- The same with a sign in front of positive numbers too. -/
def signedFixed (places : Nat) (x : Float) : String :=
  let text := fixed places x
  if Text.begins "-" text then text else "+" ++ text

end AnnealProver.Decimal
