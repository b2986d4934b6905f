import AnnealProver.Formula.Basic

/-!
# Truth values

A **valuation** gives every name a truth value, and every formula is true or false under it.  An
**assignment** gives values to some names only; evaluating under it may run into a name without a
value, unless those are filled in with a default.  Conjunction and disjunction look at their right
side only when the left one leaves the result open, implication and equivalence always look at both.
-/

namespace AnnealProver

/-- A truth value for every name. -/
abbrev Valuation := String → Bool

/-- Truth values for some names. -/
abbrev Assignment := NameTable Bool

/-- A name without a truth value was met. -/
structure MissingVariable where
  name : String
deriving DecidableEq

/-- The complaint in words. -/
def MissingVariable.message (e : MissingVariable) : String :=
  s!"Variable '{e.name}' not in assignment"

/-- The valuation that takes the default where the assignment is silent. -/
def Assignment.orElse (a : Assignment) (default : Bool) : Valuation :=
  fun x => a.getD x default

/-- The assignment of the given names and no others, those without a value taking the default. -/
def Assignment.fill (a : Assignment) (names : NameSet) (default : Bool) : Assignment :=
  ⟨names.toList.map fun x => (x, a.getD x default)⟩

namespace Formula

/-- The truth value under a valuation. -/
def eval (v : Valuation) : Formula → Bool
  | var x => v x
  | neg a => !eval v a
  | conj a b => eval v a && eval v b
  | disj a b => eval v a || eval v b
  | impl a b => !eval v a || eval v b
  | iff a b => eval v a == eval v b

/-- The truth value under an assignment, or the first name met that has none. -/
def evaluate (s : Assignment) : Formula → Except MissingVariable Bool
  | var x =>
    match s.get? x with
    | some value => .ok value
    | none => .error ⟨x⟩
  | neg a =>
    match evaluate s a with
    | .error e => .error e
    | .ok value => .ok !value
  | conj a b =>
    match evaluate s a with
    | .error e => .error e
    | .ok false => .ok false
    | .ok true => evaluate s b
  | disj a b =>
    match evaluate s a with
    | .error e => .error e
    | .ok true => .ok true
    | .ok false => evaluate s b
  | impl a b =>
    match evaluate s a, evaluate s b with
    | .error e, _ => .error e
    | .ok _, .error e => .error e
    | .ok x, .ok y => .ok (!x || y)
  | iff a b =>
    match evaluate s a, evaluate s b with
    | .error e, _ => .error e
    | .ok _, .error e => .error e
    | .ok x, .ok y => .ok (x == y)

/-- The truth value under an assignment, names without a value taking the default. -/
def evaluateOr (s : Assignment) (default : Bool) (f : Formula) : Bool :=
  f.eval (s.orElse default)

/-- Evaluation under the assignment of the formula's own names, filled up with the default. -/
def evaluateFilled (s : Assignment) (default : Bool) (f : Formula) : Except MissingVariable Bool :=
  f.evaluate (s.fill f.vars default)

end Formula

/-- Every valuation that makes the premises true makes the conclusion true. -/
def Entails (premises : List Formula) (conclusion : Formula) : Prop :=
  ∀ v : Valuation, (∀ p ∈ premises, p.eval v = true) → conclusion.eval v = true

end AnnealProver
