import AnnealProver.Formula.Printer

/-!
# The state of a proof

A proof under construction: numbered steps, the knowledge base of what may be used, and a stack of
open assumptions.  It starts with one step per axiom.  Closing an assumption takes the assumed
formula out of the knowledge base; the steps made under it stay.
-/

namespace AnnealProver

/-- How a proof stands. -/
inductive Status where
  | inProgress
  | success
  | failed
  | timeout
deriving DecidableEq

/-- The word for the status. -/
def Status.text : Status → String
  | inProgress => "in_progress"
  | success => "success"
  | failed => "failed"
  | timeout => "timeout"

/-- The status of a word. -/
def Status.ofText? (word : String) : Option Status :=
  [inProgress, success, failed, timeout].find? fun s => s.text == word

/-- One line of a proof. -/
structure Step where
  number : Nat
  formula : Formula
  rule : String
  /-- The numbers of the steps it rests on. -/
  premises : List Int
  justification : String
  /-- How many assumptions are open. -/
  level : Nat := 0

/-- The line as a text, indented by its level. -/
def Step.text (s : Step) : String :=
  let premises :=
    if s.premises.isEmpty then "假设" else String.intercalate ", " (s.premises.map toString)
  let indent := Text.repeated s.level "  "
  s!"{indent}{s.number}. {s.formula.text}  [{s.rule}, {premises}]"

/-- An assumption that is open. -/
structure Assumption where
  formula : Formula
  /-- The number of the step that made it. -/
  step : Nat
  level : Nat
  target : Option Formula

/-- A proof under construction.  The latest assumption is the last of the list. -/
structure ProofState where
  axioms : FormulaSet
  goal : Formula
  steps : List Step := []
  knowledge : FormulaSet := ∅
  assumptions : List Assumption := []
  status : Status := .inProgress

namespace ProofState

/-- The name under which axioms are recorded. -/
def axiomRule : String := "axiom"

/-- The name under which assumptions are recorded. -/
def assumptionRule : String := "assumption"

/-- The step that records the axiom at an index. -/
def axiomStep (index : Nat) (formula : Formula) : Step :=
  { number := index + 1, formula, rule := axiomRule, premises := [],
    justification := s!"公理 {index + 1}" }

/-- A state without steps gets one step per axiom, and the axioms into its knowledge base. -/
def settle (s : ProofState) : ProofState :=
  if s.steps.isEmpty then
    { s with
      steps := s.axioms.toList.mapIdx axiomStep
      knowledge := s.knowledge.insertAll s.axioms.toList }
  else s

/-- The state at the beginning of a problem. -/
def start (axioms : List Formula) (goal : Formula) : ProofState :=
  settle { axioms := .ofList axioms, goal }

/-- Another state with the same contents. -/
def clone (s : ProofState) : ProofState :=
  s.settle

/-- Whether the goal is known. -/
def isComplete (s : ProofState) : Bool :=
  s.knowledge.contains s.goal

/-- Whether a formula and its negation are known. -/
def hasContradiction (s : ProofState) : Bool :=
  s.knowledge.toList.any fun
    | .neg f => s.knowledge.contains f
    | _ => false

/-- The latest step with a formula alike. -/
def findStep? (s : ProofState) (formula : Formula) : Option Step :=
  s.steps.reverse.find? fun step => step.formula.alike formula

/-- Adds a step. -/
def addStep (s : ProofState) (formula : Formula) (rule : String) (premises : List Int)
    (justification : String) : Step × ProofState :=
  let step : Step :=
    { number := s.steps.length + 1, formula, rule, premises, justification,
      level := s.assumptions.length }
  let knowledge := s.knowledge.insert formula
  (step, { s with
    steps := s.steps ++ [step]
    knowledge
    status := if knowledge.contains s.goal then .success else s.status })

/-- Opens an assumption. -/
def assume (s : ProofState) (formula : Formula) (target : Option Formula) : Step × ProofState :=
  let number := s.steps.length + 1
  let level := s.assumptions.length + 1
  let step : Step :=
    { number, formula, rule := assumptionRule, premises := [], justification := "假设", level }
  (step, { s with
    steps := s.steps ++ [step]
    knowledge := s.knowledge.insert formula
    assumptions := s.assumptions ++ [⟨formula, number, level, target⟩] })

/-- Closes the latest assumption. -/
def discharge (s : ProofState) : Option Assumption × ProofState :=
  match s.assumptions.getLast? with
  | none => (none, s)
  | some a => (some a, { s with
      assumptions := s.assumptions.dropLast
      knowledge := s.knowledge.erase a.formula })

/-- Closes the latest assumption and concludes an implication, if its right side is known and both
sides have a step, the left one as an assumption. -/
def conditional (s : ProofState) (assumption conclusion : Formula) :
    Option Step × ProofState :=
  let made := s.steps.reverse.find? fun step =>
    step.formula.alike assumption && step.rule == assumptionRule
  match s.knowledge.contains conclusion, made, s.findStep? conclusion with
  | true, some a, some c =>
    let implication := Formula.impl assumption conclusion
    let (step, s) := s.discharge.2.addStep implication "imply_intro" [a.number, c.number]
      s!"条件证明：假设 {assumption.text}，得 {conclusion.text}，因此 {implication.text}"
    (some step, s)
  | _, _, _ => (none, s)

/-- The whole proof as a text. -/
def text (s : ProofState) : String :=
  let double := Text.repeated 60 "="
  let single := Text.repeated 60 "-"
  let verdict := match s.status with
    | .success => ["✓ 证明完成"]
    | .failed => ["✗ 证明失败"]
    | _ => []
  Text.lines <|
    [double, "证明", double, "", "公理:"] ++
    s.axioms.toList.map (fun f => "  " ++ f.text) ++
    ["", "目标: " ++ s.goal.text, "", "证明步骤:", single] ++
    s.steps.map Step.text ++
    [single, "", "状态: " ++ s.status.text] ++ verdict ++ [double]

/-- The rules used, in order of first use. -/
def rulesUsed (s : ProofState) : List String :=
  (OrderedSet.ofList (s.steps.map (·.rule)) : NameSet).toList

end ProofState

end AnnealProver
