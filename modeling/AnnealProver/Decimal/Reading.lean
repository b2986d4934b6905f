import AnnealProver.Decimal.Shortest
import AnnealProver.Text.Blank
import AnnealProver.Text.Digit

/-!
# Reading numbers

Numbers given as options: blanks around them are passed over, digits may come from any script, and
an underscore may stand between two digits.
-/

namespace AnnealProver.Decimal

/-- Whether a digit stands at the front. -/
def startsWithDigit : List Char → Bool
  | [] => false
  | c :: _ => (Text.digit? c).isSome

/-- The digits at the front with the rest behind them; an underscore is passed over only between
two digits.  `inside` says that a digit has just been read. -/
def digitRun : (inside : Bool) → List Char → List Nat × List Char
  | _, [] => ([], [])
  | inside, c :: rest =>
    match Text.digit? c with
    | some d =>
      let (more, left) := digitRun true rest
      (d :: more, left)
    | none =>
      if inside && c == '_' && startsWithDigit rest then digitRun false rest
      else ([], c :: rest)

/-- The number that digits spell. -/
def ofDigits (digits : List Nat) : Nat :=
  digits.foldl (fun n d => 10 * n + d) 0

/-- A sign at the front: whether it is a minus, and the rest. -/
def signed : List Char → Bool × List Char
  | '-' :: rest => (true, rest)
  | '+' :: rest => (false, rest)
  | rest => (false, rest)

/-- Reads a whole number. -/
def readInt? (text : String) : Option Int :=
  let (negative, rest) := signed (Text.trim text).toList
  match digitRun false rest with
  | ([], _) => none
  | (digits, []) =>
    let magnitude : Int := ofDigits digits
    some (if negative then -magnitude else magnitude)
  | (_, _ :: _) => none

/-- The exponent part of a decimal: nothing, or the letter e with a whole number. -/
def exponentPart? : List Char → Option Int
  | [] => some 0
  | c :: rest =>
    if c == 'e' || c == 'E' then
      let (negative, rest) := signed rest
      match digitRun false rest with
      | ([], _) => none
      | (digits, []) =>
        let magnitude : Int := ofDigits digits
        some (if negative then -magnitude else magnitude)
      | (_, _ :: _) => none
    else none

/-- The digits on both sides of the point, and what follows. -/
def mantissaPart (cs : List Char) : List Nat × List Nat × List Char :=
  let (whole, rest) := digitRun false cs
  match rest with
  | '.' :: after =>
    let (fraction, rest) := digitRun false after
    (whole, fraction, rest)
  | _ => (whole, [], rest)

/-- An unsigned decimal as the nearest double. -/
def readUnsigned? (cs : List Char) : Option Float :=
  let (whole, fraction, rest) := mantissaPart cs
  if whole.isEmpty && fraction.isEmpty then none
  else do
    let exponent ← exponentPart? rest
    -- exponents beyond every double are cut off before powers are formed
    let limit : Int := 400 + whole.length + fraction.length
    let exponent := max (-limit) (min limit exponent)
    some (Scientific.toFloat ⟨ofDigits (whole ++ fraction), exponent - fraction.length⟩)

/-- Reads a real number; infinity and the missing number have names. -/
def readReal? (text : String) : Option Float :=
  let (negative, rest) := signed (Text.trim text).toList
  let name := String.ofList (rest.map Char.toLower)
  let magnitude :=
    if name == "inf" || name == "infinity" then some (1.0 / 0.0)
    else if name == "nan" then some (0.0 / 0.0)
    else readUnsigned? rest
  magnitude.map fun x => if negative then -x else x

end AnnealProver.Decimal
