import AnnealProver.Formula.Basic
import AnnealProver.Text.Quoted

/-!
# Printed formulas

Formulas are printed in two notations.  The **sparse** one puts parentheses only around operands
that need them to be read back; the **bracketed** one puts a pair around every binary formula.
Trees are printed with the names of their nodes.
-/

namespace AnnealProver.Formula

/-- Whether the operand stands bare on both sides of every connective. -/
def isTight : Formula → Bool
  | var _ => true
  | neg _ => true
  | _ => false

/-- Whether the operand stands bare on both sides of a disjunction. -/
def isTightInDisj : Formula → Bool
  | conj _ _ => true
  | f => f.isTight

/-- The text in parentheses unless it may stand bare. -/
def wrap (bare : Bool) (text : String) : String :=
  if bare then text else "(" ++ text ++ ")"

/-- The formula in sparse notation. -/
def text : Formula → String
  | var x => x
  | neg a => "~" ++ wrap a.isVar a.text
  | conj a b => wrap a.isTight a.text ++ " & " ++ wrap b.isTight b.text
  | disj a b => wrap a.isTightInDisj a.text ++ " | " ++ wrap b.isTightInDisj b.text
  | impl a b => wrap a.isTight a.text ++ " -> " ++ wrap b.isTight b.text
  | iff a b => wrap a.isTight a.text ++ " <-> " ++ wrap b.isTight b.text

/-- The formula in bracketed notation. -/
def bracketed : Formula → String
  | var x => x
  | neg a => "~" ++ a.bracketed
  | conj a b => "(" ++ a.bracketed ++ " & " ++ b.bracketed ++ ")"
  | disj a b => "(" ++ a.bracketed ++ " | " ++ b.bracketed ++ ")"
  | impl a b => "(" ++ a.bracketed ++ " -> " ++ b.bracketed ++ ")"
  | iff a b => "(" ++ a.bracketed ++ " <-> " ++ b.bracketed ++ ")"

/-- The tree of the formula: node names with their operands. -/
def tree : Formula → String
  | var x => "Var(" ++ Text.quoted x ++ ")"
  | neg a => "Not(" ++ a.tree ++ ")"
  | conj a b => "And(" ++ a.tree ++ ", " ++ b.tree ++ ")"
  | disj a b => "Or(" ++ a.tree ++ ", " ++ b.tree ++ ")"
  | impl a b => "Imply(" ++ a.tree ++ ", " ++ b.tree ++ ")"
  | iff a b => "Iff(" ++ a.tree ++ ", " ++ b.tree ++ ")"

/-- The tree with the role of each operand. -/
def roleTree : Formula → String
  | var x => "Var(name=" ++ Text.quoted x ++ ")"
  | neg a => "Not(operand=" ++ a.roleTree ++ ")"
  | conj a b => "And(left=" ++ a.roleTree ++ ", right=" ++ b.roleTree ++ ")"
  | disj a b => "Or(left=" ++ a.roleTree ++ ", right=" ++ b.roleTree ++ ")"
  | impl a b => "Imply(left=" ++ a.roleTree ++ ", right=" ++ b.roleTree ++ ")"
  | iff a b => "Iff(left=" ++ a.roleTree ++ ", right=" ++ b.roleTree ++ ")"

/-- The root's node with its operands in bracketed notation. -/
def root : Formula → String
  | var x => "Var(" ++ x ++ ")"
  | neg a => "Not(" ++ a.bracketed ++ ")"
  | conj a b => "And(" ++ a.bracketed ++ ", " ++ b.bracketed ++ ")"
  | disj a b => "Or(" ++ a.bracketed ++ ", " ++ b.bracketed ++ ")"
  | impl a b => "Imply(" ++ a.bracketed ++ ", " ++ b.bracketed ++ ")"
  | iff a b => "Iff(" ++ a.bracketed ++ ", " ++ b.bracketed ++ ")"

/-- Formulas in sparse notation, divided by commas. -/
def texts (fs : List Formula) : String :=
  String.intercalate ", " (fs.map text)

end AnnealProver.Formula
