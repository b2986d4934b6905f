import AnnealProver.Formula.Basic

/-!
# Negation normal form

Implications and equivalences are first written out with negation, conjunction and disjunction;
then negations are pushed down to the variables.  A pass that pushes negations has no rule for an
implication or an equivalence: the **strict** one complains about it, the other leaves it alone.
-/

namespace AnnealProver

namespace Formula

/-- Writes out implications and equivalences. -/
def expand : Formula → Formula
  | var x => var x
  | neg a => neg (expand a)
  | conj a b => conj (expand a) (expand b)
  | disj a b => disj (expand a) (expand b)
  | impl a b => disj (neg (expand a)) (expand b)
  | iff a b => conj (disj (neg (expand a)) (expand b)) (disj (neg (expand b)) (expand a))

/-- Pushes negations down to the variables; `positive` is false under an odd number of negations.
Implications and equivalences are left alone: they have been written out before. -/
def push : (positive : Bool) → Formula → Formula
  | true, var x => var x
  | false, var x => neg (var x)
  | positive, neg a => push (!positive) a
  | true, conj a b => conj (push true a) (push true b)
  | false, conj a b => disj (push false a) (push false b)
  | true, disj a b => disj (push true a) (push true b)
  | false, disj a b => conj (push false a) (push false b)
  | true, impl a b => impl a b
  | false, impl a b => neg (impl a b)
  | true, iff a b => iff a b
  | false, iff a b => neg (iff a b)

/-- The negation normal form. -/
def toNnf (f : Formula) : Formula :=
  push true (expand f)

end Formula

/-! ## The strict pass -/

/-- A connective was met that should have been written out. -/
structure StrayConnective where
  connective : Connective
  /-- Whether its negation was to be pushed down. -/
  negated : Bool
deriving DecidableEq

/-- The complaint in words. -/
def StrayConnective.message (e : StrayConnective) : String :=
  "Unexpected expression type in " ++ (if e.negated then "negation push" else "NNF conversion") ++
    ": <class 'qubo_prover.logic.ast." ++ e.connective.node ++ "'>"

namespace Formula

/-- Pushes negations down to the variables, or stops at the first implication or equivalence. -/
def pushStrict : (positive : Bool) → Formula → Except StrayConnective Formula
  | true, var x => return var x
  | false, var x => return neg (var x)
  | positive, neg a => pushStrict (!positive) a
  | true, conj a b => return conj (← pushStrict true a) (← pushStrict true b)
  | false, conj a b => return disj (← pushStrict false a) (← pushStrict false b)
  | true, disj a b => return disj (← pushStrict true a) (← pushStrict true b)
  | false, disj a b => return conj (← pushStrict false a) (← pushStrict false b)
  | positive, impl _ _ => throw ⟨.impl, !positive⟩
  | positive, iff _ _ => throw ⟨.iff, !positive⟩

/-- The negation normal form, or the connective on which the strict pass stops. -/
def toNnfStrict (f : Formula) : Except StrayConnective Formula :=
  pushStrict true (expand f)

end Formula

end AnnealProver
