import AnnealProver.NormalForm.Clause
import AnnealProver.NormalForm.Negation

/-!
# Conjunctive normal form

A set of clauses that all have to be true.  Clauses that are true anyway, because a name occurs in
them with both signs, are left out when clauses are added.

Distributing a disjunction over two clause sets pairs their clauses; where one side has no clause
left the other side is taken as it stands.

The conversion has no rule for a negation before anything but a variable, for an implication and for
an equivalence: the **strict** one complains about them, the other gives them no clauses.
-/

namespace AnnealProver

/-- A set of clauses that all have to be true. -/
structure Cnf where
  clauses : OrderedSet Clause.same

namespace Cnf

/-- The clauses in order of arrival. -/
def toList (f : Cnf) : List Clause :=
  f.clauses.toList

/-- Adds a clause unless it is true anyway. -/
def add (f : Cnf) (c : Clause) : Cnf :=
  if c.isTautology then f else ⟨f.clauses.insert c⟩

/-- The clauses of a list, without those that are true anyway. -/
def ofList (clauses : List Clause) : Cnf :=
  clauses.foldl add ⟨∅⟩

/-- The clause sets of both. -/
def union (f g : Cnf) : Cnf :=
  g.toList.foldl add f

/-- The disjunction of two clause sets: every clause of the first joined with every clause of the
second. -/
def distribute (f g : Cnf) : Cnf :=
  if f.clauses.isEmpty then g
  else if g.clauses.isEmpty then f
  else ofList (f.toList.flatMap fun c => g.toList.map c.union)

/-- Whether there is no clause. -/
def isEmpty (f : Cnf) : Bool :=
  f.clauses.isEmpty

/-- Whether one clause has no literal. -/
def hasEmptyClause (f : Cnf) : Bool :=
  f.toList.any Clause.isEmpty

/-- The names in the clauses. -/
def vars (f : Cnf) : NameSet :=
  .ofList (f.toList.flatMap fun c => c.vars.toList)

/-- The clauses of one literal. -/
def units (f : Cnf) : List Clause :=
  f.toList.filter fun c => c.unit?.isSome

/-- The texts of the clauses in the order of their code points. -/
def clauseTexts (f : Cnf) : List String :=
  sortNames (f.toList.map Clause.text)

/-- The clause set as a text; the one without clauses is truth. -/
def text (f : Cnf) : String :=
  if f.isEmpty then "⊤"
  else String.intercalate " ∧ " (f.clauseTexts.map fun c => "(" ++ c ++ ")")

/-- The truth value under a valuation. -/
def eval (v : Valuation) (f : Cnf) : Bool :=
  f.toList.all (·.eval v)

/-- The clause set as a formula, in order of arrival; truth is a variable or its negation. -/
def toFormula (f : Cnf) : Formula :=
  (Formula.join? .conj (f.toList.map Clause.toFormula)).getD
    (.disj (.var "_TRUE_") (.neg (.var "_TRUE_")))

/-- The set of one clause of one literal. -/
def ofLiteral (l : Literal) : Cnf :=
  ⟨.ofList [.ofList [l]]⟩

/-- The clauses of a formula in negation normal form.  Other formulas have none. -/
def ofNnf : Formula → Cnf
  | .var x => ofLiteral ⟨x, true⟩
  | .neg (.var x) => ofLiteral ⟨x, false⟩
  | .conj a b => (ofNnf a).union (ofNnf b)
  | .disj a b => (ofNnf a).distribute (ofNnf b)
  | _ => ⟨∅⟩

end Cnf

/-- The conjunctive normal form of a formula. -/
def Formula.toCnf (f : Formula) : Cnf :=
  .ofNnf f.toNnf

/-! ## The strict conversion -/

/-- Why there are no clauses. -/
inductive NoClauses where
  /-- There is no negation normal form. -/
  | notNormal (e : StrayConnective)
  /-- A compound formula is negated. -/
  | negated
  | connective (c : Connective)
deriving DecidableEq

/-- The complaint in words. -/
def NoClauses.message : NoClauses → String
  | notNormal e => e.message
  | negated => "Not should only appear before Var in NNF"
  | connective c =>
    "Unexpected expression type in CNF conversion: <class 'qubo_prover.logic.ast." ++ c.node ++ "'>"

/-- The clauses of a formula in negation normal form, or what is in the way of them. -/
def Cnf.ofNnfStrict : Formula → Except NoClauses Cnf
  | .var x => return ofLiteral ⟨x, true⟩
  | .neg (.var x) => return ofLiteral ⟨x, false⟩
  | .neg _ => throw .negated
  | .conj a b => return (← ofNnfStrict a).union (← ofNnfStrict b)
  | .disj a b => return (← ofNnfStrict a).distribute (← ofNnfStrict b)
  | .impl _ _ => throw (.connective .impl)
  | .iff _ _ => throw (.connective .iff)

/-- The conjunctive normal form of a formula, or what is in the way of it. -/
def Formula.toCnfStrict (f : Formula) : Except NoClauses Cnf :=
  f.toNnfStrict.mapError .notNormal >>= Cnf.ofNnfStrict

end AnnealProver
