import AnnealProver.Energy.LabelProblem
import AnnealProver.Sampling.Decoding
import AnnealProver.Text.Blank

/-!
# Checking and explaining a sample of a problem with telling names

The check and the explanation work on printed formulas.  They cut a text at its arrow or ampersand
and look at the pieces, and so they only understand formulas with one connective of a kind; pieces
that are no names of bits count as zero.
-/

namespace AnnealProver

/-- What is known of a problem when its sample is explained. -/
structure LabelView where
  axiomBits : List String := []
  goalBit : String := ""
  /-- The printed formula of every bit. -/
  formulas : NameTable String := ∅
  axiomTexts : List String := []
  goalText : String := ""

/-- What is known of a problem. -/
def LabelProblem.view (p : LabelProblem) : LabelView :=
  { axiomBits := p.axiomBits, goalBit := p.goalBit, formulas := p.formulaTexts
    axiomTexts := p.axioms.map (·.bracketed), goalText := p.goal.bracketed }

namespace LabelView

/-! ## Checking -/

/-- The two pieces around the only arrow of a text, without outer parentheses. -/
def outerArrow? (text : String) : Option (String × String) :=
  match Text.split "->" (Text.trimParens text) with
  | [left, right] => some (Text.trim left, Text.trim right)
  | _ => none

/-- What is wrong with an implication, if anything. -/
def implicationFault? (s : Sample) : String × String → Option String
  | (name, text) =>
    if Text.occurs "->" text && s.value name == 1 then
      (outerArrow? text).bind fun (left, right) =>
        if s.value left == 1 && s.value right != 1 then
          some s!"蕴涵约束违反: {left}=1 且 {name}=1，但 {right}=0"
        else none
    else none

/-- Whether a name is one of a negation. -/
def namesNegation (name : String) : Bool :=
  Text.begins "Not_" name || Text.begins "Goal_Not_" name ||
    (Text.begins "Axiom" name && Text.occurs "_Not_" name)

/-- What is wrong with a negation, if anything. -/
def negationFault? (s : Sample) : String × String → Option String
  | (name, text) =>
    if namesNegation name && Text.occurs "~" text then
      let operand := Text.trim (Text.replace "~" "" text)
      if s.value name + s.value operand == 1 then none
      else some s!"否定约束违反: {name}={s.value name} 但 {operand}={s.value operand}，应该互斥"
    else none

/-- The first fault, implications before negations. -/
def fault? (formulas : NameTable String) (s : Sample) : Option String :=
  formulas.entries.findSome? (implicationFault? s) <|>
    formulas.entries.findSome? (negationFault? s)

/-- Whether the axioms and the goal are one and no fault is found, with a word on it. -/
def check (axiomBits : List String) (goalBit : String) (formulas : NameTable String) (s : Sample) :
    Bool × String :=
  match axiomBits.find? fun x => s.value x != 1 with
  | some x => (false, s!"公理 {x} 未满足（值为 {s.value x}）")
  | none =>
    if s.value goalBit != 1 then (false, s!"目标 {goalBit} 未满足（值为 {s.value goalBit}）")
    else
      match fault? formulas s with
      | some reason => (false, s!"结构约束违反: {reason}")
      | none => (true, "所有约束满足")

/-! ## Explaining -/

/-- The two pieces around the only mark of a text, each without its parentheses. -/
def pieces? (mark text : String) : Option (String × String) :=
  match Text.split mark text with
  | [left, right] => some (Text.trimParens (Text.trim left), Text.trimParens (Text.trim right))
  | _ => none

/-- Uses of modus ponens: a symbol that is true and an axiom with it before the arrow. -/
def ponensLines (axioms : List (String × Nat)) (symbols : Sample) : List String :=
  axioms.flatMap fun (a, i) =>
    if symbols.contains a && symbols.value a == 1 then
      axioms.flatMap fun (b, j) =>
        match pieces? "->" b with
        | some (left, right) =>
          if left == a then
            [s!"由公理 {i + 1} ({a}=真) 和公理 {j + 1} ({a}→{right})，",
             s!"  根据 Modus Ponens 规则，得 {right}=真"]
          else []
        | none => []
    else []

/-- Uses of modus tollens: an axiom that denies what another has after the arrow. -/
def tollensLines (axioms : List (String × Nat)) : List String :=
  axioms.flatMap fun (a, i) =>
    match pieces? "->" a with
    | some (left, right) =>
      axioms.flatMap fun (b, j) =>
        if Text.begins "~" b && Text.trimParens (Text.trim (Text.afterFirst 1 b)) == right then
          [s!"由公理 {i + 1} ({left}→{right}) 和公理 {j + 1} (~{right}=真)，",
           "  根据 Modus Tollens 规则（反证法）：",
           s!"    假设 {left}=真，则由 {left}→{right} 得 {right}=真",
           s!"    但 ~{right}=真，即 {right}=假，矛盾！",
           s!"    因此 {left}=假，即 ~{left}=真"]
        else []
    | none => []

/-- Uses of conjunctions. -/
def conjunctionLines (axioms : List (String × Nat)) : List String :=
  axioms.flatMap fun (a, i) =>
    match pieces? "&" a with
    | some (left, right) =>
      [s!"由公理 {i + 1} ({left}∧{right}=真)，", s!"  根据合取消除规则，得 {left}=真 且 {right}=真"]
    | none => []

/-- The control bits that are one. -/
def controlLines (s : Sample) : List String :=
  (s.entries.filter fun (x, v) => Text.begins "Rule_" x && v == 1).map fun (x, _) =>
    let name := Text.replace "_" " → " (Text.replace "Rule_" "" x)
    s!"（系统激活了推理规则变量: {name}）"

/-- The inferences that are seen among the axioms. -/
def inferenceLines (axiomTexts : List String) (s : Sample) : List String :=
  let axioms := axiomTexts.zipIdx
  let lines := ponensLines axioms (s.select .symbols) ++ tollensLines axioms ++
    conjunctionLines axioms ++ controlLines s
  if lines.isEmpty then ["（直接由公理和命题变量赋值得出结论）"] else lines

/-- The explanation of a sample, line by line. -/
def explain (v : LabelView) (s : Sample) : List String :=
  let axioms := v.axiomBits.zipIdx.map fun (x, i) =>
    let formula := v.formulas.getD x x
    if s.value x == 1 then s!"  ✓ 公理 {i + 1}: {formula}"
    else s!"  ✗ 公理 {i + 1}: {formula} [警告: 未满足]"
  let conclusion :=
    if !v.goalBit.isEmpty && s.value v.goalBit == 1 then
      [s!"  ✓ 目标 {v.goalText} 得证", "  证明完成！"]
    else [s!"  ✗ 目标 {v.goalText} 未得证", "  证明失败！"]
  ["【步骤 1】公理（已知为真）:"] ++ axioms ++ ["", "【步骤 2】命题变量赋值:"] ++ s.truthLines ++
  ["", "【步骤 3】推理过程:"] ++ (inferenceLines v.axiomTexts s).map ("  " ++ ·) ++
  ["", "【步骤 4】结论:"] ++ conclusion

end LabelView

/-- The bits of a sample by name, those that are one or all of them. -/
def Sample.text (s : Sample) (all : Bool) : String :=
  Text.lines ((s.sorted.filter fun (_, v) => v == 1 || all).map fun (x, v) => s!"  {x} = {v}")

end AnnealProver
