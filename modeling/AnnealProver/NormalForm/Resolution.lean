import AnnealProver.NormalForm.Cnf

/-!
# Resolution

Two clauses that hold a name with opposite signs have a **resolvent**: what is left of both without
the name.  Adding resolvents until the clause without literals appears refutes a clause set.

A clause set has no order of its own, and two clauses may clash on several names.  The order in
which the clauses are gone through and the name that is resolved on are a **schedule**; the one that
is used takes clauses in order of arrival and resolves on the first name that clashes.
-/

namespace AnnealProver

namespace Clause

/-- The names that occur with opposite signs in the two clauses. -/
def clashes (c d : Clause) : NameSet :=
  .ofList (c.positives.filter d.negatives.contains ++ c.negatives.filter d.positives.contains)

/-- The resolvent on a name. -/
def resolve? (c d : Clause) (name : String) : Option Clause :=
  if c.contains ⟨name, true⟩ && d.contains ⟨name, false⟩ then
    some ((c.remove ⟨name, true⟩).union (d.remove ⟨name, false⟩))
  else if c.contains ⟨name, false⟩ && d.contains ⟨name, true⟩ then
    some ((c.remove ⟨name, false⟩).union (d.remove ⟨name, true⟩))
  else none

/-- The name on which two clauses are resolved. -/
def findClash? (c d : Clause) : Option String :=
  (c.clashes d).toList.head?

end Clause

/-- Two clauses and their resolvent. -/
structure Resolvent where
  first : Clause
  second : Clause
  result : Clause

/-- The unordered pairs of list elements, in the order of their first and then second members. -/
def pairs {α : Type} : List α → List (α × α)
  | [] => []
  | a :: rest => rest.map (fun b => (a, b)) ++ pairs rest

/-- What resolution is free to choose, knowing the clauses so far: the order in which to take them,
and for two of them a name on which they clash. -/
structure Schedule where
  order : OrderedSet Clause.same → List Clause
  order_perm : ∀ clauses, (order clauses).Perm clauses.toList
  clash? : OrderedSet Clause.same → Clause → Clause → Option String
  clash?_mem : ∀ clauses c d name, clash? clauses c d = some name → name ∈ (c.clashes d).toList
  clash?_none : ∀ clauses c d, clash? clauses c d = none → (c.clashes d).toList = []

/-- Clauses in order of arrival, resolved on the first name that clashes. -/
def Schedule.arrival : Schedule where
  order clauses := clauses.toList
  order_perm _ := .refl _
  clash? _ c d := c.findClash? d
  clash?_mem _ _ _ _ h := List.mem_of_head? h
  clash?_none _ _ _ h := List.head?_eq_none_iff.1 h

/-- The resolvent of two clauses on the name chosen for them; a clash on the empty name does not
count. -/
def resolventOf? (c d : Clause) : Option String → Option Resolvent
  | none => none
  | some name =>
    if name.isEmpty then none else (c.resolve? d name).map fun r => ⟨c, d, r⟩

/-- What is found up to and with the first refutation. -/
def untilRefuted : List Resolvent → List Resolvent
  | [] => []
  | r :: rest => if r.result.isEmpty then [r] else r :: untilRefuted rest

/-- Everything that one round of resolution finds. -/
def Schedule.round (plan : Schedule) (clauses : OrderedSet Clause.same) : List Resolvent :=
  untilRefuted <| (pairs (plan.order clauses)).filterMap fun p =>
    resolventOf? p.1 p.2 (plan.clash? clauses p.1 p.2)

/-- Rounds of resolution: whether the clause without literals was reached, and the steps taken.
Resolvents that are true anyway, or known already, are not kept. -/
def refuteFrom (plan : Schedule) : (rounds : Nat) → OrderedSet Clause.same → List Resolvent →
    Bool × List Resolvent
  | 0, _, steps => (false, steps)
  | rounds + 1, clauses, steps =>
    let found := plan.round clauses
    let steps := steps ++ found
    if found.any fun r => r.result.isEmpty then (true, steps)
    else
      let fresh := (found.map (·.result)).filter fun r =>
        !clauses.contains r && !r.isTautology
      if fresh.isEmpty then (false, steps)
      else refuteFrom plan rounds (clauses.insertAll fresh) steps

/-- Tries to derive the clause without literals in a number of rounds. -/
def Cnf.refuteBy (f : Cnf) (plan : Schedule) (rounds : Int) : Bool × List Resolvent :=
  refuteFrom plan rounds.toNat f.clauses []

/-- The refutation with clauses in order of arrival. -/
def Cnf.refute (f : Cnf) (rounds : Int) : Bool × List Resolvent :=
  f.refuteBy .arrival rounds

end AnnealProver
