import AnnealProver.Energy.Encoder
import AnnealProver.Number
import AnnealProver.Proof.Rule
import AnnealProver.Text.Quoted

/-!
# A proof problem as an energy

The energy of a problem is the sum of four parts: the axioms are to be true, the goal is to be true,
the ties hold, and the **hints** hold.  A hint is an instance of an inference rule that is seen
among the axioms.  It has a control bit, and costs something where the control bit is one and a bit
that it needs is not; the weight of the rule makes the hint cheaper.
-/

namespace AnnealProver

/-- What the parts of an energy cost. -/
structure Penalties (K : Type) where
  axioms : K
  goal : K
  structural : K
  rule : K

/-- The penalties that hold when none are given. -/
def Penalties.usual : Penalties Number :=
  ⟨.real 100, .real 100, .real 20, .real 10⟩

/-- An instance of a rule among the axioms. -/
structure Hint where
  rule : Rule
  control : String
  needs : List String
  /-- How it is reported. -/
  text : String

/-- What it costs to have the control bit without a bit that it needs. -/
def Hint.energy {K : Type} (h : Hint) : Energy K :=
  .sum (h.needs.map fun x => .bit h.control * .asksFor x)

namespace Hint

/-- An axiom `p → q` with an axiom `p`. -/
def ponens? (axioms : List Formula) (e : Encoder) : Formula → Option Hint × Encoder
  | .impl p q =>
    if p.isAmong axioms then
      let whole := Formula.impl p q
      let (left, e) := e.encode p
      let (arrow, e) := e.encode whole
      let (right, e) := e.encode q
      let control := s!"Rule_MP_{left.name}_{right.name}"
      let text := s!"检测到 MP: {p.text}, {whole.text} ⊢ {q.text}"
      (some ⟨.modusPonens, control, [left.name, arrow.name, right.name], text⟩, e)
    else (none, e)
  | _ => (none, e)

/-- An axiom `p → q` with an axiom that is the opposite of `q`. -/
def tollens? (axioms : List Formula) (e : Encoder) : Formula → Option Hint × Encoder
  | .impl p q =>
    if q.opposite.isAmong axioms then
      let whole := Formula.impl p q
      let (arrow, e) := e.encode whole
      let (right, e) := e.encode q.opposite
      let (left, e) := e.encode p.opposite
      let control := s!"Rule_MT_{p.text}_{q.text}"
      let text := s!"检测到 MT: {whole.text}, {q.opposite.text} ⊢ ~{p.text}"
      (some ⟨.modusTollens, control, [arrow.name, right.name, left.name], text⟩, e)
    else (none, e)
  | _ => (none, e)

/-- An axiom `p ∧ q`, which is its own control. -/
def parts? (e : Encoder) : Formula → Option Hint × Encoder
  | .conj p q =>
    let whole := Formula.conj p q
    let (both, e) := e.encode whole
    let (left, e) := e.encode p
    let (right, e) := e.encode q
    let text := s!"检测到 And-Elim: {whole.text} ⊢ {p.text}, {q.text}"
    (some ⟨.conjElimLeft, both.name, [left.name, right.name], text⟩, e)
  | _ => (none, e)

/-- Goes through formulas and gathers hints. -/
def gather (seek : Encoder → Formula → Option Hint × Encoder) (e : Encoder) :
    List Formula → List Hint × Encoder
  | [] => ([], e)
  | f :: rest =>
    let (hint, e) := seek e f
    let (hints, e) := gather seek e rest
    (hint.toList ++ hints, e)

/-- All hints among the axioms. -/
def ofAxioms (axioms : List Formula) (e : Encoder) : List Hint × Encoder :=
  let (ponens, e) := gather (ponens? axioms) e axioms
  let (tollens, e) := gather (tollens? axioms) e axioms
  let (parts, e) := gather parts? e axioms
  (ponens ++ tollens ++ parts, e)

end Hint

/-- Axioms and a goal with their bits. -/
structure Problem where
  axioms : List Formula
  goal : Formula
  axiomBits : List Encoded
  goalBit : Encoded
  /-- The ties of the axioms and the goal. -/
  ties : List Tie
  hints : List Hint
  /-- All bits, also those that only the hints need. -/
  encoder : Encoder

namespace Problem

/-- Gives the axioms and the goal their bits and looks for hints. -/
def ofFormulas (axioms : List Formula) (goal : Formula) : Problem :=
  let (axiomBits, e) := Encoder.encodeAll {} axioms
  let (goalBit, e) := e.encode goal
  let (hints, encoder) := Hint.ofAxioms axioms e
  { axioms, goal, axiomBits, goalBit, ties := e.ties, hints, encoder }

/-- The energy of the problem.  A rule without a weight has weight one. -/
def energy {K : Type} [Sub K] [Mul K] [NatCast K] (p : Problem) (penalty : Penalties K)
    (weights : NameTable K) : Energy K :=
  let axioms := p.axiomBits.foldl (fun h b => h + .weight penalty.axioms * .asksFor b.name) 0
  let goal := axioms + .weight penalty.goal * .asksFor p.goalBit.name
  let ties := p.ties.foldl (fun h t => h + .weight penalty.structural * t.energy) goal
  let factor (r : Rule) : K :=
    penalty.rule * (((2 : Nat) : K) - weights.getD r.name ((1 : Nat) : K))
  ties + p.hints.foldl (fun h g => h + .weight (factor g.rule) * g.energy) 0

/-- The formula of every bit, by name. -/
def formulaTexts (p : Problem) : NameTable String :=
  .ofList (p.encoder.formulas.values.map fun x => (x.name, x.formula.text))

/-- What is said before the formulas are read. -/
def opening (axioms : List String) (goal : String) : List String :=
  let bar := Text.repeated 60 "="
  ["", bar, "QUBO 构建开始", bar, "", "公理: " ++ Text.quotedList axioms, "目标: " ++ goal]

/-- What is said while the energy is built and compiled to so many terms. -/
def report (p : Problem) (penalty : Penalties Number) (terms : Nat) (offset : Number) :
    List String :=
  let encoded := (p.axioms.zip p.axiomBits).zipIdx.map fun ((f, b), index) =>
    s!"  公理 {index + 1}: {f.text} -> {b.name}"
  let demanded (b : Encoded) := s!"    - 强制 {b.name} = 1"
  ["", "[编码阶段]"] ++ encoded ++
  [s!"  目标: {p.goal.text} -> {p.goalBit.name}", "", "[构建哈密顿量]",
   s!"  添加公理约束 (惩罚={penalty.axioms.text})"] ++ p.axiomBits.map demanded ++
  [s!"  添加目标约束 (惩罚={penalty.goal.text})", demanded p.goalBit,
   s!"  添加结构约束 (惩罚={penalty.structural.text})"] ++
  p.ties.map (fun t => s!"    - {t.label} 约束") ++
  [s!"  添加推理规则约束 (基础惩罚={penalty.rule.text})"] ++
  p.hints.map (fun h => "    - " ++ h.text) ++
  ["", "[编译 QUBO]", s!"  QUBO 项数: {terms}", s!"  变量数: {p.encoder.bits.size}",
   s!"  偏移量: {offset.text}"]

/-- The problem as a text, or a word that there is none yet. -/
def summary : Option Problem → String
  | none => "构建器未初始化"
  | some p =>
    let bar := Text.repeated 60 "="
    Text.lines <|
      [bar, "QUBO 构建摘要", bar, "", s!"公理数量: {p.axioms.length}"] ++
      p.axioms.zipIdx.map (fun (f, index) => s!"  {index + 1}. {f.text}") ++
      ["", "目标: " ++ p.goal.text, "", p.encoder.summary, "", bar]

end Problem

end AnnealProver
