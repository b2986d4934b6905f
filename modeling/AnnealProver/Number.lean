import AnnealProver.Decimal.Fixed
import AnnealProver.Decimal.Shortest

/-!
# Numbers as they are given

Penalties, weights and energies come either as whole numbers or as reals, and keep their kind:
whole numbers compute exactly, a real makes the result real, and a quotient is always real.  The
kind shows when a number is printed.
-/

namespace AnnealProver

/-- A whole number or a double. -/
inductive Number where
  | whole (n : Int)
  | real (x : Float)

namespace Number

/-- The number as a double. -/
def toFloat : Number → Float
  | whole n => Decimal.ofInt n
  | real x => x

/-- An operation that is exact on whole numbers and otherwise that of doubles. -/
def lift (exact : Int → Int → Int) (rounded : Float → Float → Float) : Number → Number → Number
  | whole m, whole n => whole (exact m n)
  | a, b => real (rounded a.toFloat b.toFloat)

instance : Add Number := ⟨lift (· + ·) (· + ·)⟩
instance : Sub Number := ⟨lift (· - ·) (· - ·)⟩
instance : Mul Number := ⟨lift (· * ·) (· * ·)⟩
instance : Div Number := ⟨fun a b => real (a.toFloat / b.toFloat)⟩
instance : NatCast Number := ⟨fun n => whole n⟩
instance : Inhabited Number := ⟨whole 0⟩

/-- Strictly smaller. -/
def lt : Number → Number → Bool
  | whole m, whole n => m < n
  | a, b => a.toFloat < b.toFloat

/-- The same amount, whatever the kind. -/
def equals : Number → Number → Bool
  | whole m, whole n => m == n
  | a, b => a.toFloat == b.toFloat

/-- Drops what stands after the point. -/
def truncate : Number → Int
  | whole n => n
  | real x =>
    match Decimal.Binary.ofFloat x with
    | .finite negative mantissa exponent =>
      let magnitude : Nat :=
        if exponent < 0 then mantissa / Nat.pow 2 (-exponent).toNat
        else mantissa * Nat.pow 2 exponent.toNat
      if negative then -(magnitude : Int) else magnitude
    | _ => 0

/-- The number on its own: a whole one by its digits, a real one in its shortest form. -/
def text : Number → String
  | whole n => toString n
  | real x => Decimal.shortestText x

/-- The number with a fixed number of places. -/
def fixed (places : Nat) (n : Number) : String :=
  Decimal.fixed places n.toFloat

end Number

end AnnealProver
