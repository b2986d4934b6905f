import AnnealProver.Energy.Problem

/-!
# The steps of a proof as bits

Beside the bits of the formulas, a **step bit** stands for every triple of a time, a rule and a
conclusion that may come up in a proof.  At every time at most one step is to be taken; steps cost
something, the more so while the goal is not true.
-/

namespace AnnealProver

/-- How many times there are and what the parts of the energy cost. -/
structure StepSettings (K : Type) where
  maxSteps : Int
  axioms : K
  step : K
  structural : K
  rule : K
  length : K

/-- The settings that hold when none are given. -/
def StepSettings.usual : StepSettings Number :=
  ⟨10, .real 100, .real 50, .real 20, .real 10, .real 1⟩

/-- A step that may be taken. -/
structure StepBit where
  time : Int
  rule : String
  formula : Formula
  name : String

/-- The formulas that may come up in a proof besides the axioms and the goal: their parts and what
one inference gives. -/
def relevantFormulas (axioms : List Formula) (goal : Formula) : List Formula :=
  let parts := axioms.flatMap Formula.subformulas ++ goal.subformulas
  let kb : FormulaSet := .ofList axioms
  let found := Rule.all.flatMap fun r => (r.apply kb (some goal)).map (·.conclusion)
  ((OrderedSet.ofList (parts ++ found) : FormulaSet).diff kb |>.erase goal).toList

/-- The name of the bit that says that a formula is proved. -/
def provenName (f : Formula) : String :=
  "proven_" ++ f.text

/-- The steps that may be taken at one time. -/
def stepsAt (time : Nat) (conclusions : List Formula) : List StepBit :=
  Rule.all.flatMap fun r => conclusions.map fun f =>
    ⟨time, r.name, f, s!"step_{time}_{r.name}_{f.text}"⟩

/-- A problem with its step bits. -/
structure StepProblem where
  maxSteps : Int
  axiomBits : List Encoded
  goalBit : Encoded
  encoder : Encoder
  /-- The steps, for one time after the other. -/
  times : List (List StepBit)
  /-- The formulas that may be proved. -/
  provable : FormulaSet

namespace StepProblem

/-- Gives formulas and steps their bits. -/
def ofFormulas (maxSteps : Int) (axioms : List Formula) (goal : Formula) : StepProblem :=
  let (axiomBits, e) := Encoder.encodeAll {} axioms
  let (goalBit, e) := e.encode goal
  let between := relevantFormulas axioms goal
  let encoder := (e.encodeAll between).2
  { maxSteps, axiomBits, goalBit, encoder
    times := (List.range maxSteps.toNat).map fun t => stepsAt t (goal :: between)
    provable := .ofList (goal :: axioms ++ between) }

/-- All step bits. -/
def steps (p : StepProblem) : List StepBit :=
  p.times.flatten

/-- The names of all bits. -/
def names (p : StepProblem) : List String :=
  (p.encoder.bits.insertAll (p.steps.map (·.name)) |>.insertAll
    (p.provable.toList.map provenName)).toList

/-- Costs something for every two steps at one time. -/
def crowding {K : Type} (steps : List StepBit) : Energy K :=
  let total := Energy.sum (steps.map fun s => .bit s.name)
  total * (total - 1) / 2

/-- The energy of the problem.  A rule without a weight has weight one. -/
def energy {K : Type} [Sub K] [Mul K] [NatCast K] (p : StepProblem) (s : StepSettings K)
    (weights : NameTable K) : Energy K :=
  let goal := Energy.asksFor p.goalBit.name
  let factor (rule : String) : K := s.rule * (((2 : Nat) : K) - weights.getD rule ((1 : Nat) : K))
  let h := p.axiomBits.foldl (fun h b => h + .weight s.axioms * .asksFor b.name) 0
  let h := h + .weight s.axioms * goal
  let h := h + .weight s.structural * p.encoder.energy ((1 : Nat) : K)
  let h := (p.times.filter fun steps => 1 < steps.length).foldl
    (fun h steps => h + .weight s.step * crowding steps) h
  let h := p.steps.foldl (fun h b => h + .weight (factor b.rule) * .bit b.name * goal) h
  p.steps.foldl (fun h b => h + .weight s.length * .bit b.name) h

/-- The steps taken under an assignment of bits, by time. -/
def decode (steps : List StepBit) (isOne : String → Bool) : List StepBit :=
  (steps.filter fun b => isOne b.name).mergeSort fun a b => a.time ≤ b.time

end StepProblem

/-- The axioms and the goal are to be true and the ties hold; no hints, no steps. -/
def plainEnergy {K : Type} [NatCast K] (axioms : List Formula) (goal : Formula)
    (axiomPenalty structuralPenalty : K) : Energy K × Encoder :=
  let (axiomBits, e) := Encoder.encodeAll {} axioms
  let (goalBit, e) := e.encode goal
  let h := (axiomBits ++ [goalBit]).foldl
    (fun h b => h + .weight axiomPenalty * .asksFor b.name) 0
  (h + .weight structuralPenalty * e.energy ((1 : Nat) : K), e)

end AnnealProver
