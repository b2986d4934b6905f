import AnnealProver.Formula.Models
import AnnealProver.Formula.Parser
import AnnealProver.Scalar
import AnnealProver.Text.Upper

/-!
# Verifying a reported solution

A reported assignment is checked in three steps: every value is a bit, the axioms and the goal are
true under the values of the proposition symbols, and the axioms entail the goal.  Proposition
symbols are the names of one upper-case character; a formula that mentions other names cannot be
evaluated and is passed over.  The last step counts only when the verification is strict.
-/

namespace AnnealProver

/-- What a verification comes to. -/
inductive Verdict where
  | valid
  | invalid
  | incomplete
deriving DecidableEq

/-- The word for the verdict. -/
def Verdict.text : Verdict → String
  | valid => "valid"
  | invalid => "invalid"
  | incomplete => "incomplete"

/-- The outcome of one check. -/
structure Check where
  ok : Bool
  message : String

/-- The verdict with its reason and the checks that were made, by name. -/
structure Verification where
  verdict : Verdict
  message : String
  checks : List (String × Check) := []

/-- Whether every value is a bit. -/
def checkBits (assignment : NameTable Scalar) : Check :=
  match assignment.entries.find? fun entry => !entry.2.isBinary with
  | some (name, value) => ⟨false, s!"变量 {name} 的值 {value.shown} 不是二进制"⟩
  | none => ⟨true, "格式正确"⟩

/-- The values of the proposition symbols. -/
def symbolValues (assignment : NameTable Scalar) : Assignment :=
  ⟨(assignment.entries.filter fun entry => Text.isSymbol entry.1).map fun entry =>
    (entry.1, entry.2.truth)⟩

/-- Whether the formula can be evaluated and is false. -/
def Formula.isRefutedBy (f : Formula) (a : Assignment) : Bool :=
  match f.evaluate a with
  | .ok value => !value
  | .error _ => false

/-- Whether the axioms and the goal are true under the values of the proposition symbols. -/
def checkValues (axioms : List Formula) (goal : Formula) (assignment : NameTable Scalar) : Check :=
  let values := symbolValues assignment
  if values.entries.isEmpty then ⟨true, "无命题变量需验证"⟩
  else
    match axioms.zipIdx.find? fun a => a.1.isRefutedBy values with
    | some (f, index) => ⟨false, s!"公理 {index + 1} ({f.text}) 在给定赋值下为假"⟩
    | none =>
      if goal.isRefutedBy values then ⟨false, s!"目标 ({goal.text}) 在给定赋值下为假"⟩
      else ⟨true, "语义正确"⟩

/-- Whether the axioms entail the goal. -/
def checkEntailment (axioms : List Formula) (goal : Formula) : Check :=
  if Formula.entails axioms goal then ⟨true, "公理蕴涵目标"⟩
  else ⟨false, "公理不蕴涵目标（可能需要更多推理步骤）"⟩

/-- Verifies a reported assignment. -/
def verify (strict : Bool) (axioms : List Formula) (goal : Formula)
    (assignment : NameTable Scalar) : Verification :=
  let bits := checkBits assignment
  if !bits.ok then ⟨.invalid, "语法验证失败: " ++ bits.message, [("syntax", bits)]⟩
  else
    let values := checkValues axioms goal assignment
    if !values.ok then
      ⟨.invalid, "语义验证失败: " ++ values.message, [("syntax", bits), ("semantic", values)]⟩
    else
      let entailment := checkEntailment axioms goal
      let checks := [("syntax", bits), ("semantic", values), ("entailment", entailment)]
      if !entailment.ok && strict then
        ⟨.incomplete, "蕴涵验证失败: " ++ entailment.message, checks⟩
      else ⟨.valid, "证明有效", checks⟩

/-- Verifies a reported assignment for formulas given as texts, without asking for entailment. -/
def quickVerify (axioms : List String) (goal : String) (assignment : NameTable Scalar) :
    Except ParseFailure Bool := do
  let axioms ← Formula.parseAll .full axioms
  let goal ← Formula.parse .full goal
  return (verify false axioms goal assignment).verdict == .valid

/-- A reported proof step: a rule name, a conclusion, and the places of its premises among the
axioms and the steps before. -/
structure ReportedStep where
  rule : String
  conclusion : Formula
  premises : List Int

/-- The first premise that points to nothing, with the index of its step. -/
def findDangling : (index known : Nat) → List ReportedStep → Option (Nat × Int)
  | _, _, [] => none
  | index, known, step :: rest =>
    match step.premises.find? fun p => p < 0 || (known : Int) ≤ p with
    | some p => some (index, p)
    | none => findDangling (index + 1) (known + 1) rest

/-- Verifies reported proof steps: every premise points to something before, and the goal appears.
The rules are taken at their word. -/
def verifySteps (axioms : List Formula) (goal : Formula) (steps : List ReportedStep) :
    Verification :=
  match findDangling 0 axioms.length steps with
  | some (index, p) => ⟨.invalid, s!"步骤 {index + 1}: 前提 {p} 不存在", []⟩
  | none =>
    if (axioms ++ steps.map (·.conclusion)).any goal.alike then ⟨.valid, "逐步证明有效", []⟩
    else ⟨.incomplete, "目标未在证明步骤中出现", []⟩

end AnnealProver
