import AnnealProver.NormalForm.Resolution

/-!
# Inference rules

Fourteen rules of natural deduction and resolution.  A rule looks at a knowledge base, and possibly
at a goal, and lists the **inferences** it allows there: a conclusion with the premises it was drawn
from, all of them members of the knowledge base.

With a goal in view most rules keep only the inferences that conclude it; introducing a conjunction,
a disjunction or an implication builds the goal from its parts.  The two rules that notice a
contradiction do not look at the goal.
-/

namespace AnnealProver

/-- The inference rules. -/
inductive Rule where
  | modusPonens
  | modusTollens
  | implIntro
  | implElim
  | conjIntro
  | conjElimLeft
  | conjElimRight
  | disjIntroLeft
  | disjIntroRight
  | disjElim
  | negIntro
  | negElim
  | doubleNegElim
  | resolution
deriving DecidableEq

/-- A conclusion with its premises, the rule that draws it, and for a resolution the name resolved
on. -/
structure Inference where
  rule : Rule
  premises : List Formula
  conclusion : Formula
  pivot : String := ""

namespace Rule

/-- All rules, in the order in which they are tried. -/
def all : List Rule :=
  [modusPonens, modusTollens, implIntro, implElim, conjIntro, conjElimLeft, conjElimRight,
    disjIntroLeft, disjIntroRight, disjElim, negIntro, negElim, doubleNegElim, resolution]

/-- The name by which a rule is called up and recorded. -/
def name : Rule → String
  | modusPonens => "modus_ponens"
  | modusTollens => "modus_tollens"
  | implIntro => "imply_intro"
  | implElim => "imply_elim"
  | conjIntro => "and_intro"
  | conjElimLeft => "and_elim_left"
  | conjElimRight => "and_elim_right"
  | disjIntroLeft => "or_intro_left"
  | disjIntroRight => "or_intro_right"
  | disjElim => "or_elim"
  | negIntro => "not_intro"
  | negElim => "not_elim"
  | doubleNegElim => "double_neg_elim"
  | resolution => "resolution"

/-- What the rule says. -/
def description : Rule → String
  | modusPonens => "P, P → Q ⊢ Q"
  | modusTollens => "P → Q, ~Q ⊢ ~P"
  | implIntro => "[P] ... Q ⊢ P → Q (条件证明)"
  | implElim => "P → Q, P ⊢ Q (同 MP)"
  | conjIntro => "P, Q ⊢ P ∧ Q"
  | conjElimLeft => "P ∧ Q ⊢ P"
  | conjElimRight => "P ∧ Q ⊢ Q"
  | disjIntroLeft => "P ⊢ P ∨ Q"
  | disjIntroRight => "Q ⊢ P ∨ Q"
  | disjElim => "P ∨ Q, ~P ⊢ Q (析取三段论)"
  | negIntro => "[P] ... ⊥ ⊢ ~P (归谬法)"
  | negElim => "~P, P ⊢ ⊥ (检测矛盾)"
  | doubleNegElim => "~~P ⊢ P"
  | resolution => "A ∨ P, B ∨ ~P ⊢ A ∨ B (归结消解)"

/-- The rule of a name. -/
def ofName? (name : String) : Option Rule :=
  all.find? fun rule => rule.name == name

/-- Whether a conclusion serves the goal: any does when there is none. -/
def serves (goal : Option Formula) (conclusion : Formula) : Bool :=
  goal.all conclusion.alike

/-- From an implication and its left side, the right side. -/
def ponens (kb : FormulaSet) (goal : Option Formula) : Formula → List Inference
  | .impl p q =>
    if kb.contains p && serves goal q then [⟨modusPonens, [p, .impl p q], q, ""⟩] else []
  | _ => []

/-- From an implication and the opposite of its right side, the opposite of the left side. -/
def tollens (kb : FormulaSet) (goal : Option Formula) : Formula → List Inference
  | .impl p q =>
    if kb.contains q.opposite && serves goal p.opposite then
      [⟨modusTollens, [.impl p q, q.opposite], p.opposite, ""⟩]
    else []
  | _ => []

/-- From a conjunction, its left side. -/
def left (goal : Option Formula) : Formula → List Inference
  | .conj p q => if serves goal p then [⟨conjElimLeft, [.conj p q], p, ""⟩] else []
  | _ => []

/-- From a conjunction, its right side. -/
def right (goal : Option Formula) : Formula → List Inference
  | .conj p q => if serves goal q then [⟨conjElimRight, [.conj p q], q, ""⟩] else []
  | _ => []

/-- From a disjunction and the opposite of one side, the other side. -/
def syllogism (kb : FormulaSet) (goal : Option Formula) : Formula → List Inference
  | .disj p q =>
    (if kb.contains p.opposite && serves goal q then
      [⟨disjElim, [.disj p q, p.opposite], q, ""⟩] else []) ++
    (if kb.contains q.opposite && serves goal p then
      [⟨disjElim, [.disj p q, q.opposite], p, ""⟩] else [])
  | _ => []

/-- A negation next to what it negates: the negation again, or the conjunction of both. -/
def contradiction (rule : Rule) (kb : FormulaSet) : Formula → List Inference
  | .neg p =>
    if kb.contains p then
      [⟨rule, [.neg p, p], if rule = negIntro then .neg p else .conj (.neg p) p, ""⟩]
    else []
  | _ => []

/-- From a double negation, the formula under it. -/
def strip (goal : Option Formula) : Formula → List Inference
  | .neg (.neg p) => if serves goal p then [⟨doubleNegElim, [.neg (.neg p)], p, ""⟩] else []
  | _ => []

/-- The literals of a disjunction of literals. -/
def literals? : Formula → Option (List Literal)
  | .disj a b =>
    match literals? a, literals? b with
    | some l, some m => some (l ++ m)
    | _, _ => none
  | f => (Literal.ofFormula? f).map ([·])

/-- The members of the knowledge base that are clauses, with their clauses. -/
def clausal (kb : FormulaSet) : List (Formula × Clause) :=
  kb.toList.filterMap fun f => (literals? f).map fun ls => (f, .ofList ls)

/-- The resolvents of two clauses that are not true anyway. -/
def resolvents (goal : Option Formula) (first second : Formula × Clause) : List Inference :=
  (first.2.clashes second.2).toList.filterMap fun name =>
    match first.2.resolve? second.2 name with
    | some r =>
      if !r.isTautology && serves goal r.toFormula then
        some ⟨resolution, [first.1, second.1], r.toFormula, name⟩
      else none
    | none => none

/-- Builds a conjunction: the goal from its sides, or without such a goal every pair of members. -/
def conjunctions (kb : FormulaSet) : Option Formula → List Inference
  | some (.conj p q) =>
    if kb.contains p && kb.contains q then [⟨conjIntro, [p, q], .conj p q, ""⟩] else []
  | goal => (pairs kb.toList).filterMap fun (p, q) =>
    if serves goal (.conj p q) then some ⟨conjIntro, [p, q], .conj p q, ""⟩ else none

/-- Builds a goal from one of its parts. -/
def builds (rule : Rule) (kb : FormulaSet) (part goal : Formula) : List Inference :=
  if kb.contains part then [⟨rule, [part], goal, ""⟩] else []

/-- The inferences that a rule allows. -/
def apply (rule : Rule) (kb : FormulaSet) (goal : Option Formula) : List Inference :=
  match rule, goal with
  | modusPonens, _ | implElim, _ => kb.toList.flatMap (ponens kb goal)
  | modusTollens, _ => kb.toList.flatMap (tollens kb goal)
  | implIntro, some (.impl p q) => builds implIntro kb q (.impl p q)
  | conjIntro, _ => conjunctions kb goal
  | conjElimLeft, _ => kb.toList.flatMap (left goal)
  | conjElimRight, _ => kb.toList.flatMap (right goal)
  | disjIntroLeft, some (.disj p q) => builds disjIntroLeft kb p (.disj p q)
  | disjIntroRight, some (.disj p q) => builds disjIntroRight kb q (.disj p q)
  | disjElim, _ => kb.toList.flatMap (syllogism kb goal)
  | negIntro, _ => kb.toList.flatMap (contradiction negIntro kb)
  | negElim, _ => kb.toList.flatMap (contradiction negElim kb)
  | doubleNegElim, _ => kb.toList.flatMap (strip goal)
  | resolution, _ => (pairs (clausal kb)).flatMap fun (c, d) => resolvents goal c d
  | implIntro, _ | disjIntroLeft, _ | disjIntroRight, _ => []

/-- Whether the rule allows any inference. -/
def applies (rule : Rule) (kb : FormulaSet) (goal : Option Formula) : Bool :=
  !(rule.apply kb goal).isEmpty

/-- The rules that are not excluded by name. -/
def allBut (excluded : List String) : List Rule :=
  all.filter fun rule => !excluded.contains rule.name

/-- The inferences of all rules but the excluded ones. -/
def applyAll (kb : FormulaSet) (goal : Option Formula) (excluded : List String) :
    List Inference :=
  (allBut excluded).flatMap fun rule => rule.apply kb goal

end Rule

namespace Inference

/-- The inference in words. -/
def description (r : Inference) : String :=
  let premises := r.premises.map Formula.text
  let both := String.intercalate " 和 " premises
  let conclusion := r.conclusion.text
  match r.rule with
  | .modusPonens | .implElim => s!"由 {both}，根据 MP 得 {conclusion}"
  | .modusTollens => s!"由 {both}，根据 MT 得 {conclusion}"
  | .implIntro => s!"由 {both} 成立，得 {conclusion}"
  | .negIntro => "检测到矛盾: " ++ String.intercalate " 与 " premises
  | .negElim => "检测到矛盾：" ++ String.intercalate " 与 " premises
  | .resolution => s!"归结 {both} 在变量 {r.pivot} 上，得 {conclusion}"
  | _ => s!"由 {both}，得 {conclusion}"

/-- The inference as a line: rule, premises and conclusion. -/
def text (r : Inference) : String :=
  r.rule.name ++ ": " ++ Formula.texts r.premises ++ " ⊢ " ++ r.conclusion.text

end Inference

end AnnealProver
