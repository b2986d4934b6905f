import AnnealProver.Decimal.Binary
import AnnealProver.Text.Cut

/-!
# The shortest decimal of a double

A double printed on its own is written with the fewest digits that read back as the same double.
For each number of digits the two neighbours of the value on that decimal grid are tried; the first
grid on which one of them reads back wins, and of two the nearer is taken.
-/

namespace AnnealProver.Decimal

/-- A decimal `digits * 10 ^ exponent`. -/
structure Scientific where
  digits : Nat
  exponent : Int

/-- The double nearest to a decimal. -/
def Scientific.toFloat (s : Scientific) : Float :=
  if s.exponent < 0 then Float.ofScientific s.digits true (-s.exponent).toNat
  else Float.ofScientific s.digits false s.exponent.toNat

/-- A power of ten under which every positive double is at least one. -/
def lift : Nat := 330

/-- The exponent of the first decimal digit of `mantissa * 2 ^ exponent`, for a positive
mantissa. -/
def leadingExponent (mantissa : Nat) (exponent : Int) : Int :=
  let scaled := mantissa * Nat.pow 10 lift
  let whole :=
    if exponent < 0 then scaled / Nat.pow 2 (-exponent).toNat
    else scaled * Nat.pow 2 exponent.toNat
  ((toString whole).length : Int) - 1 - lift

/-- The value `mantissa * 2 ^ exponent` divided by `10 ^ place`, as numerator and denominator. -/
def scaledBy (place : Int) (mantissa : Nat) (exponent : Int) : Nat × Nat :=
  let up := fun (base : Nat) (e : Int) => if 0 ≤ e then Nat.pow base e.toNat else 1
  let down := fun (base : Nat) (e : Int) => if e < 0 then Nat.pow base (-e).toNat else 1
  (mantissa * up 2 exponent * down 10 place, down 2 exponent * up 10 place)

/-- The decimal of so many digits that reads back, if a neighbour of the value does. -/
def onGrid? (x : Float) (mantissa : Nat) (exponent leading : Int) (count : Nat) :
    Option Scientific :=
  let place := leading - count + 1
  let (numerator, denominator) := scaledBy place mantissa exponent
  let below : Scientific := ⟨numerator / denominator, place⟩
  let above : Scientific := ⟨numerator / denominator + 1, place⟩
  let remainder := 2 * (numerator % denominator)
  match below.toFloat == x, above.toFloat == x with
  | true, true =>
    if remainder < denominator then some below
    else if denominator < remainder then some above
    else some (if below.digits % 2 == 0 then below else above)
  | true, false => some below
  | false, true => some above
  | false, false => none

/-- The shortest decimal of a positive finite double. -/
def shortest (x : Float) (mantissa : Nat) (exponent : Int) : Scientific :=
  let leading := leadingExponent mantissa exponent
  ((List.range 17).findSome? fun n => onGrid? x mantissa exponent leading (n + 1)).getD
    ⟨0, 0⟩

/-- Digits with their point or exponent: positional for values from a ten-thousandth up to
`10 ^ 16`, otherwise with an exponent of at least two digits.  A whole value keeps `.0`. -/
def layout (s : Scientific) : String :=
  let all := (toString s.digits).toList
  let digits := (all.reverse.dropWhile (· == '0')).reverse
  let digits := if digits.isEmpty then ['0'] else digits
  let position : Int := all.length + s.exponent
  let text := String.ofList
  if -4 < position && position ≤ 0 then
    "0." ++ Text.repeated (-position).toNat "0" ++ text digits
  else if 0 < position && position ≤ 16 then
    let whole := position.toNat
    let front := text (digits.take whole) ++ Text.repeated (whole - digits.length) "0"
    let back := digits.drop whole
    front ++ "." ++ (if back.isEmpty then "0" else text back)
  else
    let power := position - 1
    let magnitude := toString power.natAbs
    let magnitude := if magnitude.length < 2 then "0" ++ magnitude else magnitude
    let back := digits.drop 1
    text (digits.take 1) ++ (if back.isEmpty then "" else "." ++ text back) ++
      (if power < 0 then "e-" else "e+") ++ magnitude

/-- A double in its shortest form. -/
def shortestText (x : Float) : String :=
  match Binary.ofFloat x with
  | .notANumber => "nan"
  | .infinite negative => if negative then "-inf" else "inf"
  | .finite negative mantissa exponent =>
    (if negative then "-" else "") ++
      if mantissa == 0 then "0.0" else layout (shortest x.abs mantissa exponent)

end AnnealProver.Decimal
