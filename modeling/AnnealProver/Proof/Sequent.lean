import AnnealProver.Proof.Search

/-!
# Sequents

A sequent holds when some formula on its right is true or some formula on its left is false.  One is
**closed** when a formula stands on both sides.  Every compound formula can be taken apart, which
leads to one or two sequents that together say the same; taking formulas apart until all leaves are
closed proves the sequent.
-/

namespace AnnealProver

/-- Formulas on the left, formulas on the right. -/
structure Sequent where
  antecedent : FormulaSet
  succedent : FormulaSet

/-- How a sequent is justified: it is closed, or a formula is taken apart on one side. -/
inductive SequentRule where
  | closed
  | negRight
  | conjRight
  | disjRight
  | implRight
  | iffRight
  | negLeft
  | conjLeft
  | disjLeft
  | implLeft
  | iffLeft
deriving DecidableEq

/-- The name of the rule. -/
def SequentRule.name : SequentRule → String
  | closed => "axiom"
  | negRight => "not_right"
  | conjRight => "and_right"
  | disjRight => "or_right"
  | implRight => "imply_right"
  | iffRight => "iff_right"
  | negLeft => "not_left"
  | conjLeft => "and_left"
  | disjLeft => "or_left"
  | implLeft => "imply_left"
  | iffLeft => "iff_left"

namespace Sequent

/-- The sequent of an entailment. -/
def ofEntailment (premises : List Formula) (conclusion : Formula) : Sequent :=
  ⟨.ofList premises, .ofList [conclusion]⟩

/-- The sequent of a formula on its own. -/
def ofGoal (goal : Formula) : Sequent :=
  ⟨∅, .ofList [goal]⟩

/-- The sequent as a text, each side in the order of the code points. -/
def text (s : Sequent) : String :=
  let side := fun fs : FormulaSet =>
    String.intercalate ", " (sortNames (fs.toList.map Formula.text))
  side s.antecedent ++ " ⊢ " ++ side s.succedent

/-- Whether a formula stands on both sides. -/
def isClosed (s : Sequent) : Bool :=
  s.antecedent.meets s.succedent

/-- Adds a formula on the left. -/
def addLeft (s : Sequent) (f : Formula) : Sequent :=
  { s with antecedent := s.antecedent.insert f }

/-- Adds a formula on the right. -/
def addRight (s : Sequent) (f : Formula) : Sequent :=
  { s with succedent := s.succedent.insert f }

/-- Takes a formula off the left. -/
def dropLeft (s : Sequent) (f : Formula) : Sequent :=
  { s with antecedent := s.antecedent.erase f }

/-- Takes a formula off the right. -/
def dropRight (s : Sequent) (f : Formula) : Sequent :=
  { s with succedent := s.succedent.erase f }

/-- The formula to take apart: the first compound one, on the right before the left. -/
def principal? (s : Sequent) : Option Formula :=
  (s.succedent.toList ++ s.antecedent.toList).find? fun f => !f.isVar

/-- Takes a formula on the right apart, in the sequent `s` that no longer has it. -/
def splitRight? (s : Sequent) : Formula → Option (SequentRule × List Sequent)
  | .var _ => none
  | .neg a => some (.negRight, [s.addLeft a])
  | .conj a b => some (.conjRight, [s.addRight a, s.addRight b])
  | .disj a b => some (.disjRight, [(s.addRight a).addRight b])
  | .impl a b => some (.implRight, [(s.addLeft a).addRight b])
  | .iff a b => some (.iffRight, [(s.addLeft a).addRight b, (s.addLeft b).addRight a])

/-- Takes a formula on the left apart, in the sequent `s` that no longer has it. -/
def splitLeft? (s : Sequent) : Formula → Option (SequentRule × List Sequent)
  | .var _ => none
  | .neg a => some (.negLeft, [s.addRight a])
  | .conj a b => some (.conjLeft, [(s.addLeft a).addLeft b])
  | .disj a b => some (.disjLeft, [s.addLeft a, s.addLeft b])
  | .impl a b => some (.implLeft, [s.addRight a, s.addLeft b])
  | .iff a b => some (.iffLeft, [(s.addLeft a).addLeft b, (s.addRight a).addRight b])

/-- The ways to justify the sequent by others: none are needed for a closed one. -/
def decompose (s : Sequent) : List (SequentRule × List Sequent) :=
  if s.isClosed then [(.closed, [])]
  else
    s.succedent.toList.filterMap (fun f => (s.dropRight f).splitRight? f) ++
    s.antecedent.toList.filterMap (fun f => (s.dropLeft f).splitLeft? f)

/-- A sequent that was proved, with the rule that did it. -/
structure Entry where
  rule : SequentRule
  sequent : Sequent

/-- The entry as a line. -/
def Entry.text (e : Entry) : String :=
  match e.rule with
  | .closed => "公理: " ++ e.sequent.text
  | rule => "规则 " ++ rule.name ++ ": " ++ e.sequent.text

/-- Depth-first search; `fuel` is how many levels may still be opened.  The log keeps what was
proved, also on branches that failed later. -/
def search : (fuel : Nat) → Sequent → List Entry → Bool × List Entry
  | 0, _, log => (false, log)
  | fuel + 1, s, log =>
    if s.isClosed then (true, log ++ [⟨.closed, s⟩])
    else
      firstSuccess (fun (way : SequentRule × List Sequent) log =>
        match allSucceed (search fuel) way.2 log with
        | (true, log) => (true, log ++ [⟨way.1, s⟩])
        | (false, log) => (false, log)) s.decompose log

/-- Proves the sequent within a depth. -/
def prove (s : Sequent) (maxDepth : Int) : Bool × List Entry :=
  s.search (maxDepth + 1).toNat []

/-- The sequent as a formula: the left sides imply one of the right ones. -/
def toFormula (s : Sequent) : Formula :=
  match Formula.join? .conj s.antecedent.toList, Formula.join? .disj s.succedent.toList with
  | none, none => .conj (.var "_EMPTY_") (.neg (.var "_EMPTY_"))
  | none, some right => right
  | some left, none => .neg left
  | some left, some right => .impl left right

end Sequent

end AnnealProver
