import AnnealProver.Formula.Models

/-!
# Literals and clauses

A literal is a variable or its negation, and a clause is a set of literals of which one has to be
true.  Two clauses are the same when they have the same literals, in whatever order.
-/

namespace AnnealProver

/-- A variable or its negation. -/
structure Literal where
  name : String
  positive : Bool
deriving DecidableEq

namespace Literal

/-- The literal as a text, a tilde before a negated variable. -/
def text (l : Literal) : String :=
  if l.positive then l.name else "~" ++ l.name

/-- The literal with its parts spelled out. -/
def tree (l : Literal) : String :=
  let sign := if l.positive then "True" else "False"
  "Literal(" ++ Text.quoted l.name ++ ", " ++ sign ++ ")"

/-- The opposite literal. -/
def flip (l : Literal) : Literal :=
  { l with positive := !l.positive }

/-- The literal as a formula. -/
def toFormula (l : Literal) : Formula :=
  if l.positive then .var l.name else .neg (.var l.name)

/-- The truth value under a valuation. -/
def eval (v : Valuation) (l : Literal) : Bool :=
  v l.name == l.positive

/-- Reads a literal: blanks around it are dropped, and a tilde in front negates. -/
def ofText (spec : String) : Literal :=
  match (Text.trim spec).toList with
  | '~' :: name => ⟨String.ofList name, false⟩
  | name => ⟨String.ofList name, true⟩

/-- The literal that a formula is, if it is one. -/
def ofFormula? : Formula → Option Literal
  | .var x => some ⟨x, true⟩
  | .neg (.var x) => some ⟨x, false⟩
  | _ => none

/-- The order in which literals are listed: by name, the positive one first. -/
def le (a b : Literal) : Bool :=
  if a.name == b.name then a.positive || !b.positive else decide (a.name ≤ b.name)

end Literal

/-- A set of literals of which one has to be true. -/
structure Clause where
  literals : OrderedSet (fun a b : Literal => a == b)

namespace Clause

/-- The clause of the given literals. -/
def ofList (literals : List Literal) : Clause :=
  ⟨.ofList literals⟩

/-- The clause of the literals that the texts spell. -/
def ofTexts (specs : List String) : Clause :=
  ofList (specs.map Literal.ofText)

/-- The literals in order of arrival. -/
def toList (c : Clause) : List Literal :=
  c.literals.toList

/-- The literals by name, the positive one first. -/
def sorted (c : Clause) : List Literal :=
  c.toList.mergeSort Literal.le

/-- Whether the clauses have the same literals. -/
def same (c d : Clause) : Bool :=
  c.literals.subset d.literals && d.literals.subset c.literals

/-- The clause as a text; the one without literals is falsity. -/
def text (c : Clause) : String :=
  if c.literals.isEmpty then "⊥" else String.intercalate " | " (c.sorted.map Literal.text)

/-- Whether there is no literal. -/
def isEmpty (c : Clause) : Bool :=
  c.literals.isEmpty

/-- The only literal of a clause that has just one. -/
def unit? (c : Clause) : Option Literal :=
  match c.toList with
  | [l] => some l
  | _ => none

/-- The names that occur positively. -/
def positives (c : Clause) : List String :=
  (c.toList.filter (·.positive)).map (·.name)

/-- The names that occur negated. -/
def negatives (c : Clause) : List String :=
  (c.toList.filter (!·.positive)).map (·.name)

/-- Whether a name occurs with both signs. -/
def isTautology (c : Clause) : Bool :=
  c.positives.any c.negatives.contains

/-- Whether the literal is in the clause. -/
def contains (c : Clause) (l : Literal) : Bool :=
  c.literals.contains l

/-- Whether the name occurs in the clause. -/
def mentions (c : Clause) (name : String) : Bool :=
  c.toList.any (·.name == name)

/-- The clause without the literal. -/
def remove (c : Clause) (l : Literal) : Clause :=
  ⟨c.literals.erase l⟩

/-- The literals of both clauses. -/
def union (c d : Clause) : Clause :=
  ⟨c.literals.union d.literals⟩

/-- The names in the clause. -/
def vars (c : Clause) : NameSet :=
  .ofList (c.toList.map (·.name))

/-- The truth value under a valuation. -/
def eval (v : Valuation) (c : Clause) : Bool :=
  c.toList.any (·.eval v)

/-- The clause as a formula, in order of arrival; falsity is a variable and its negation. -/
def toFormula (c : Clause) : Formula :=
  (Formula.join? .disj (c.toList.map Literal.toFormula)).getD
    (.conj (.var "_FALSE_") (.neg (.var "_FALSE_")))

end Clause

end AnnealProver
