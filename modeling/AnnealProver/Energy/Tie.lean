import AnnealProver.Energy.Basic
import AnnealProver.Formula.Basic

/-!
# Ties between bits

A **tie** binds the bit of a compound formula to the bits of its parts.  Its energy is zero where
the bit has the truth value that the connective gives to the parts, and positive at all other
zero-one points.
-/

namespace AnnealProver

/-- A bit for a compound formula with the bits of its parts. -/
inductive Tie where
  | neg (operand name : String)
  | join (connective : Connective) (left right name : String)
deriving DecidableEq

namespace Tie

/-- The word for the kind of tie. -/
def label : Tie → String
  | neg _ _ => "NOT"
  | join .conj _ _ _ => "AND"
  | join .disj _ _ _ => "OR"
  | join .impl _ _ _ => "IMPLY"
  | join .iff _ _ _ => "IFF"

/-- The bit that is tied. -/
def name : Tie → String
  | neg _ name => name
  | join _ _ _ name => name

/-- The bits that it is tied to. -/
def operands : Tie → List String
  | neg operand _ => [operand]
  | join _ left right _ => [left, right]

open Energy in
/-- What it costs to break the tie. -/
def energy {K : Type} : Tie → Energy K
  | neg operand name => square (bit name + bit operand - 1)
  | join .conj left right name =>
    3 * bit name + bit left * bit right - 2 * bit name * bit left - 2 * bit name * bit right
  | join .disj left right name => square (bit name - bit left - bit right + bit left * bit right)
  | join .impl left right name => square (bit name - 1 + bit left - bit left * bit right)
  | join .iff left right name =>
    square (bit name - 1 + bit left + bit right - 2 * bit left * bit right)

end Tie

/-- How the bit of a formula with this connective at its root begins. -/
def Connective.stem : Connective → String
  | conj => "And"
  | disj => "Or"
  | impl => "Imp"
  | iff => "Iff"

end AnnealProver
