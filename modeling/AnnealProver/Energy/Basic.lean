/-!
# Energies

An **energy** is an expression over named bits: the cost that a sampler is asked to make small.  Its
coefficients come from any type `K` with arithmetic, so that one and the same energy can be computed
in doubles and reasoned about in fractions.  A **point** gives every bit a value.

The operations are kept as they are written; nothing is expanded or reordered, because rounding
would show the difference.
-/

namespace AnnealProver

/-- An expression over named bits with coefficients of type `K`. -/
inductive Energy (K : Type) where
  | weight (c : K)
  | nat (n : Nat)
  | bit (name : String)
  | add (a b : Energy K)
  | sub (a b : Energy K)
  | mul (a b : Energy K)
  | div (a b : Energy K)

namespace Energy

variable {K : Type}

instance : Add (Energy K) := ⟨add⟩
instance : Sub (Energy K) := ⟨sub⟩
instance : Mul (Energy K) := ⟨mul⟩
instance : Div (Energy K) := ⟨div⟩
instance (n : Nat) : OfNat (Energy K) n := ⟨nat n⟩

/-- The value at a point. -/
def value [Add K] [Sub K] [Mul K] [Div K] [NatCast K] (point : String → K) : Energy K → K
  | weight c => c
  | nat n => n
  | bit name => point name
  | add a b => a.value point + b.value point
  | sub a b => a.value point - b.value point
  | mul a b => a.value point * b.value point
  | div a b => a.value point / b.value point

/-- Whether no bit occurs, so that the value is the same at all points. -/
def isConstant : Energy K → Bool
  | weight _ => true
  | nat _ => true
  | bit _ => false
  | add a b => a.isConstant && b.isConstant
  | sub a b => a.isConstant && b.isConstant
  | mul a b => a.isConstant && b.isConstant
  | div a b => a.isConstant && b.isConstant

/-- The square. -/
def square (a : Energy K) : Energy K :=
  a * a

/-- The sum, added up from the left; zero of nothing. -/
def sum : List (Energy K) → Energy K
  | [] => 0
  | e :: es => es.foldl (· + ·) e

/-- The sum with every part multiplied by the same factor. -/
def weightedSum (factor : Energy K) (es : List (Energy K)) : Energy K :=
  sum (es.map (factor * ·))

/-- Costs nothing when the bit is one. -/
def asksFor (name : String) : Energy K :=
  1 - bit name

end Energy

end AnnealProver
