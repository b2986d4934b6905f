import AnnealProver.Energy.Gate
import AnnealProver.Energy.LabelEncoder
import AnnealProver.Number
import AnnealProver.Text.Quoted

/-!
# Problems over telling names

The energy of such a problem asks for the axioms and the goal, keeps the ties, and has a gate for
every use of modus ponens that is seen among the axioms.

Problems can follow one another over the same encoder.  A later problem keeps all bits of the
earlier ones and still asks for their axioms.
-/

namespace AnnealProver

/-- Axioms and a goal with their bits. -/
structure LabelProblem where
  axioms : List Formula
  goal : Formula
  /-- The bits of these axioms. -/
  ownBits : List String
  /-- The bits of the axioms of all problems so far. -/
  axiomBits : List String
  goalBit : String
  /-- The ties when the gates were sought. -/
  ties : List Tie
  /-- The gates, each with how it is reported. -/
  gates : List (Gate × String)
  encoder : LabelEncoder

namespace LabelProblem

/-- Gives the axioms their bits; every axiom has a lead of its own. -/
def encodeAxioms (e : LabelEncoder) : (index : Nat) → List Formula → List String × LabelEncoder
  | _, [] => ([], e)
  | index, f :: rest =>
    let (name, e) := e.encode s!"Axiom{index}_" f
    let (names, e) := encodeAxioms e (index + 1) rest
    (name :: names, e)

/-- A gate for every axiom `p → q` with an axiom `p`. -/
def findGates (axioms : List Formula) (e : LabelEncoder) :
    List Formula → List (Gate × String) × LabelEncoder
  | [] => ([], e)
  | .impl p q :: rest =>
    if axioms.contains p then
      let whole := Formula.impl p q
      let (left, e) := e.encode "" p
      let (arrow, e) := e.encode "" whole
      let (right, e) := e.encode "" q
      let text := s!"检测到 Modus Ponens 模式: {p.bracketed}, {whole.bracketed} ⊢ {q.bracketed}"
      let (gates, e) := findGates axioms e rest
      ((⟨s!"Rule_MP_{left}_{right}", [left, arrow], right⟩, text) :: gates, e)
    else findGates axioms e rest
  | _ :: rest => findGates axioms e rest

/-- The problem that follows earlier ones, if there are any. -/
def next (before : Option LabelProblem) (axioms : List Formula) (goal : Formula) : LabelProblem :=
  let e := (before.map (·.encoder)).getD {}
  let (ownBits, e) := encodeAxioms e 0 axioms
  let (goalBit, e) := e.encode "Goal_" goal
  let (gates, encoder) := findGates axioms e axioms
  { axioms, goal, ownBits, goalBit, gates, encoder
    axiomBits := (before.map (·.axiomBits)).getD [] ++ ownBits
    ties := e.ties }

/-- The energy of the problem. -/
def energy {K : Type} (p : LabelProblem) (axiomPenalty structuralPenalty : K) : Energy K :=
  let h := (p.axiomBits ++ [p.goalBit]).foldl
    (fun h x => h + .weight axiomPenalty * .asksFor x) 0
  let h := p.ties.foldl (fun h t => h + .weight structuralPenalty * t.squareEnergy) h
  h + p.gates.foldl (fun h g => h + g.1.energy) 0

/-- The formula of every bit, by name. -/
def formulaTexts (p : LabelProblem) : NameTable String :=
  ⟨p.encoder.formulas.entries.map fun (name, f) => (name, f.bracketed)⟩

/-- What is said while the energy is built. -/
def report (p : LabelProblem) (axioms : List String) (goal : String)
    (axiomPenalty structuralPenalty rulePenalty : Number) : List String :=
  let encoded := (p.axioms.zip p.ownBits).zipIdx.map fun ((f, name), index) =>
    s!"  公理 {index + 1}: {f.bracketed} -> 变量 {name}"
  let demanded (name : String) := s!"    - 强制 {name} = 1"
  ["", "[解析阶段]", "公理: " ++ Text.quotedList axioms, "目标: " ++ goal, "", "[编码阶段]"] ++
  encoded ++
  [s!"  目标: {p.goal.bracketed} -> 变量 {p.goalBit}", "", "[构建哈密顿量]",
   s!"  添加公理约束（惩罚系数={axiomPenalty.text}）"] ++ p.axiomBits.map demanded ++
  [s!"  添加目标约束（惩罚系数={axiomPenalty.text}）", demanded p.goalBit,
   s!"  添加结构约束（惩罚系数={structuralPenalty.text}）"] ++
  p.ties.map (fun t => s!"    - {t.label} 约束") ++
  [s!"  添加推理规则约束（惩罚系数={rulePenalty.text}）"] ++
  p.gates.map (fun g => "    - " ++ g.2) ++
  ["", "[统计信息]", s!"  总变量数: {p.encoder.formulas.size}",
   s!"  命题变量数: {p.encoder.symbols.size}", s!"  结构约束数: {p.ties.length}", "",
   "[编译 QUBO]"]

/-- What is said when the energy has been compiled to so many terms. -/
def compiled (terms : Nat) (offset : Number) : List String :=
  [s!"  QUBO 项数: {terms}", s!"  Offset: {offset.text}"]

/-- The problem as a text. -/
def summary (p : LabelProblem) : String :=
  let bar := Text.repeated 60 "="
  Text.lines <|
    [bar, "QUBO 构建摘要", bar, "", s!"公理数量: {p.axioms.length}"] ++
    p.axioms.zipIdx.map (fun (f, index) => s!"  {index + 1}. {f.bracketed}") ++
    ["", "目标: " ++ p.goal.bracketed, "", p.encoder.summary, "", bar]

end LabelProblem

end AnnealProver
