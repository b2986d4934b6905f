import AnnealProver.Decimal.Binary
import AnnealProver.Formula.Basic

/-!
# Features of a problem

Thirty-two numbers that describe a proof problem to a predictor of useful rules.  They are exact
fractions: counts, shares and averages.  Where a predictor takes them they are rounded to single
precision.
-/

namespace AnnealProver

/-- A named share, count or average. -/
abbrev Feature := String × Rat

namespace Feature

/-- One for true, zero for false. -/
def flag (b : Bool) : Rat :=
  if b then 1 else 0

/-- A count as a share of a total that is taken to be at least one, and of at most one. -/
def share (count total : Nat) : Rat :=
  let q := (count : Rat) / (max total 1 : Nat)
  if q ≤ 1 then q else 1

/-- The counts taken together. -/
def total (counts : List Nat) : Nat :=
  counts.foldl (· + ·) 0

/-- The average; zero of nothing. -/
def average (counts : List Nat) : Rat :=
  if counts.isEmpty then 0 else (total counts : Rat) / counts.length

/-- The largest count; zero of nothing. -/
def largest (counts : List Nat) : Nat :=
  counts.foldl max 0

/-- The nearest single-precision number, as a double. -/
def toSingle (q : Rat) : Float :=
  (Decimal.ofInt q.num / Decimal.ofInt q.den).toFloat32.toFloat

end Feature

namespace Formula

/-- Whether an implication occurs. -/
def hasImpl (f : Formula) : Bool := f.subformulas.any fun | impl _ _ => true | _ => false

/-- Whether a negation occurs. -/
def hasNeg (f : Formula) : Bool := f.subformulas.any fun | neg _ => true | _ => false

/-- Whether a conjunction occurs. -/
def hasConj (f : Formula) : Bool := f.subformulas.any fun | conj _ _ => true | _ => false

/-- Whether a disjunction occurs. -/
def hasDisj (f : Formula) : Bool := f.subformulas.any fun | disj _ _ => true | _ => false

/-- Whether an equivalence occurs. -/
def hasIff (f : Formula) : Bool := f.subformulas.any fun | iff _ _ => true | _ => false

end Formula

namespace Features

open Feature

/-- Implications whose left side is an axiom; one that leads to the goal counts three times. -/
def ponensPotential (axioms : List Formula) (goal : Formula) : Rat :=
  let worth : Formula → Nat
    | .impl p q => if p.isAmong axioms then (if q.alike goal then 3 else 1) else 0
    | _ => 0
  share (total (axioms.map worth)) axioms.length

/-- Implications whose right side is denied by an axiom; one whose left side the goal denies counts
three times. -/
def tollensPotential (axioms : List Formula) (goal : Formula) : Rat :=
  let worth : Formula → Nat
    | .impl p q =>
      if (Formula.neg q).isAmong axioms then (if goal.alike (.neg p) then 3 else 1) else 0
    | _ => 0
  share (total (axioms.map worth)) axioms.length

/-- The share of conjunctions among the axioms. -/
def conjElimPotential (axioms : List Formula) : Rat :=
  share (axioms.countP fun | .conj _ _ => true | _ => false) axioms.length

/-- Whether the goal is a disjunction with an axiom on one side. -/
def disjIntroPotential (axioms : List Formula) : Formula → Rat
  | .disj p q => flag (p.isAmong axioms || q.isAmong axioms)
  | _ => 0

/-- The share of double negations among the axioms. -/
def doubleNegPotential (axioms : List Formula) : Rat :=
  share (axioms.countP fun | .neg (.neg _) => true | _ => false) axioms.length

/-- How often one implication leads on to another, as a share of the implications. -/
def chainPotential (axioms : List Formula) : Rat :=
  let arrows := axioms.filterMap fun | .impl p q => some (p, q) | _ => none
  let links := total (arrows.map fun a => arrows.countP fun b => a.2.alike b.1)
  if arrows.length < 2 then 0 else share links arrows.length

/-- Whether an axiom and its opposite are both there. -/
def contradictionPotential (axioms : List Formula) : Rat :=
  flag (axioms.any fun f => f.opposite.isAmong axioms)

/-- In how many of the formulas each name occurs. -/
def frequencies (fs : List Formula) : List Nat :=
  (Formula.varsOf fs).toList.map fun x => fs.countP fun f => f.vars.contains x

/-- The features of a problem. -/
def ofProblem (axioms : List Formula) (goal : Formula) : List Feature :=
  let all := axioms ++ [goal]
  let axiomVars := Formula.varsOf axioms
  let goalVars := goal.vars
  let allVars := Formula.varsOf all
  let shared := goalVars.toList.countP axiomVars.contains
  let depths := all.map Formula.depth
  let counts := frequencies all
  [("num_axioms", axioms.length),
   ("num_variables", allVars.size),
   ("total_formula_size", total (all.map Formula.size)),
   ("max_formula_depth", largest depths),
   ("avg_formula_depth", average depths),
   ("axiom_has_imply", flag (axioms.any Formula.hasImpl)),
   ("axiom_has_not", flag (axioms.any Formula.hasNeg)),
   ("axiom_has_and", flag (axioms.any Formula.hasConj)),
   ("axiom_has_or", flag (axioms.any Formula.hasDisj)),
   ("axiom_has_iff", flag (axioms.any Formula.hasIff)),
   ("goal_has_imply", flag goal.hasImpl),
   ("goal_has_not", flag goal.hasNeg),
   ("goal_has_and", flag goal.hasConj),
   ("goal_has_or", flag goal.hasDisj),
   ("goal_has_iff", flag goal.hasIff),
   ("goal_size", goal.size),
   ("goal_depth", goal.depth),
   ("goal_is_atomic", flag goal.isVar),
   ("mp_potential", ponensPotential axioms goal),
   ("mt_potential", tollensPotential axioms goal),
   ("and_elim_potential", conjElimPotential axioms),
   ("or_intro_potential", disjIntroPotential axioms goal),
   ("double_neg_potential", doubleNegPotential axioms),
   ("chain_potential", chainPotential axioms),
   ("contradiction_potential", contradictionPotential axioms),
   ("goal_in_axioms", flag (goal.isAmong axioms)),
   ("var_overlap_ratio", share shared allVars.size),
   ("goal_var_coverage", share shared goalVars.size),
   ("avg_var_frequency", average counts),
   ("max_var_frequency", largest counts),
   ("isolated_var_count", counts.countP (· == 1)),
   ("shared_var_count", counts.countP (1 < ·))]

end Features

end AnnealProver
