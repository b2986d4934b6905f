import AnnealProver.Formula.Models
import AnnealProver.Proofs.PartialEvaluation

/-!
# Truth tables settle questions about all valuations

`assignmentsOver names` lists finitely many assignments, and each stands for the valuation that
makes every other name false.  A question whose answer depends only on `names` has the answer "yes"
on all of them exactly when it has it on every valuation: `forall_assignmentsOver`.  The correctness
of `isTautology`, `entails` and `isEquivalent` are instances of it.

The searches for a model or a countermodel all ask that some formulas have given truth values
(`Meets`).  Such a search comes back with nothing exactly when no valuation meets what is asked, and
otherwise with an assignment of the names that occur, of no others, under which evaluation gives the
values asked for (`Finds`).
-/

namespace AnnealProver

/-! ## The rows of a table -/

/-- The rows over some names are the lists of values for these names in this order. -/
lemma mem_rowsOver_iff {xs : List String} {row : List (String × Bool)} :
    row ∈ rowsOver xs ↔ row.map (·.1) = xs := by
  induction xs generalizing row with
  | nil => simp [rowsOver]
  | cons x xs ih =>
      simp only [rowsOver, List.mem_append, List.mem_map, ih]
      constructor
      · rintro (⟨rest, hrest, rfl⟩ | ⟨rest, hrest, rfl⟩) <;> simp [hrest]
      · intro h
        obtain ⟨⟨y, b⟩, rest, rfl, rfl, hrest⟩ := List.map_eq_cons_iff.1 h
        cases b with
        | false => exact Or.inl ⟨rest, hrest, rfl⟩
        | true => exact Or.inr ⟨rest, hrest, rfl⟩

/-- Every valuation, cut down to the names, is one of the rows. -/
lemma mem_rowsOver (v : Valuation) (xs : List String) :
    xs.map (fun x => (x, v x)) ∈ rowsOver xs := by
  rw [mem_rowsOver_iff, List.map_map]
  exact List.map_id xs

lemma mem_assignmentsOver {names : NameSet} {a : Assignment} :
    a ∈ assignmentsOver names ↔ a.keys = sortNames names.toList := by
  rw [assignmentsOver, Table.keys, ← mem_rowsOver_iff, List.mem_map]
  constructor
  · rintro ⟨row, hrow, rfl⟩
    exact hrow
  · exact fun h => ⟨a.entries, h, rfl⟩

/-- Looking a name up in the row of a valuation gives the valuation's value. -/
lemma get?_row (v : Valuation) {xs : List String} {x : String} (hx : x ∈ xs) :
    Table.get? (⟨xs.map fun y => (y, v y)⟩ : Assignment) x = some (v x) := by
  induction xs with
  | nil => simp at hx
  | cons y ys ih =>
      by_cases hyx : y = x
      · subst hyx
        simp [Table.get?]
      · have htail := ih ((List.mem_cons.1 hx).resolve_left fun h => hyx h.symm)
        simp only [Table.get?, List.map_cons] at htail ⊢
        rw [List.find?_cons_of_neg (by simpa using hyx)]
        exact htail

lemma orElse_row (v : Valuation) {xs : List String} {x : String} (hx : x ∈ xs) :
    Assignment.orElse ⟨xs.map fun y => (y, v y)⟩ false x = v x := by
  rw [Assignment.orElse, Table.getD, get?_row v hx, Option.getD_some]

/-- **A truth table is as good as all valuations** for a question that depends only on the names of
the table. -/
lemma forall_assignmentsOver {names : NameSet} {p : Valuation → Bool}
    (hp : DependsOn p {x | x ∈ names.toList}) :
    (∀ a ∈ assignmentsOver names, p (a.orElse false) = true) ↔ ∀ v, p v = true := by
  constructor
  · intro h v
    let row : Assignment := ⟨(sortNames names.toList).map fun x => (x, v x)⟩
    have hrow : row ∈ assignmentsOver names := List.mem_map_of_mem (mem_rowsOver v _)
    have hagree : p (row.orElse false) = p v := by
      refine hp fun x hx => orElse_row v ?_
      simpa [sortNames] using hx
    rw [← hagree]
    exact h row hrow
  · exact fun h a _ => h _

/-! ## The names of a row -/

/-- The assignment gives one value to each name that occurs in the formulas, and none to others. -/
structure Assignment.Covers (a : Assignment) (fs : List Formula) : Prop where
  once : a.keys.Nodup
  exactly : ∀ x, x ∈ a.keys ↔ ∃ f ∈ fs, x ∈ f.names

namespace Formula

lemma vars_eq_varsOf (f : Formula) : f.vars = varsOf [f] := by
  simp [vars, varsOf]

lemma mem_varsOf {fs : List Formula} {x : String} :
    x ∈ (varsOf fs).toList ↔ ∃ f ∈ fs, x ∈ f.names := by
  rw [varsOf, mem_nameSet_ofList, List.mem_flatMap]

lemma covers_of_mem {fs : List Formula} {a : Assignment} (h : a ∈ assignmentsOver (varsOf fs)) :
    a.Covers fs := by
  rw [mem_assignmentsOver] at h
  have hperm : a.keys.Perm (varsOf fs).toList := by
    rw [h]
    exact List.mergeSort_perm _ _
  exact ⟨hperm.nodup_iff.2 (nodup_nameSet _), fun x => hperm.mem_iff.trans mem_varsOf⟩

/-- Of several formulas, each depends only on the names that occur in any of them. -/
lemma dependsOn_varsOf {fs : List Formula} {f : Formula} (hf : f ∈ fs) :
    DependsOn (fun v => f.eval v) {x | x ∈ (varsOf fs).toList} :=
  fun _ _ h => f.dependsOn_names fun x hx => h x (mem_varsOf.2 ⟨f, hf, hx⟩)

end Formula

/-- Evaluating a formula in a row made for it never meets a name without a value. -/
lemma Assignment.Covers.evaluate_eq {fs : List Formula} {f : Formula} {a : Assignment}
    (h : a.Covers fs) (hf : f ∈ fs) : f.evaluate a = .ok (f.holds a) := by
  refine Formula.evaluate_eq_ok false fun x hx => ?_
  have hkey : x ∈ a.keys := (h.exactly x).2 ⟨f, hf, hx⟩
  simpa [Table.contains, Table.keys] using hkey

/-- In the rows of its own table a formula evaluates to what the table says. -/
lemma Formula.evaluate_of_mem_assignments {f : Formula} {a : Assignment} (ha : a ∈ f.assignments) :
    f.evaluate a = .ok (f.holds a) := by
  rw [assignments, vars_eq_varsOf] at ha
  exact (covers_of_mem ha).evaluate_eq List.mem_cons_self

/-! ## Searching the table -/

/-- Whether the formulas have the truth values asked of them. -/
def meets (demands : List (Formula × Bool)) (v : Valuation) : Bool :=
  demands.all fun d => d.1.eval v == d.2

/-- What a search for a row that meets the demands comes back with. -/
structure Finds (demands : List (Formula × Bool)) (found : Option Assignment) : Prop where
  none_iff : found = none ↔ ∀ v, meets demands v = false
  covers : ∀ a, found = some a → a.Covers (demands.map (·.1))
  values : ∀ a, found = some a → ∀ d ∈ demands, d.1.evaluate a = .ok d.2

lemma dependsOn_meets (demands : List (Formula × Bool)) :
    DependsOn (meets demands) {x | x ∈ (Formula.varsOf (demands.map (·.1))).toList} := by
  intro v w h
  simp only [meets]
  rw [Bool.eq_iff_iff, List.all_eq_true, List.all_eq_true]
  refine forall₂_congr fun d hd => ?_
  have hvalue : d.1.eval v = d.1.eval w := Formula.dependsOn_varsOf (List.mem_map_of_mem hd) h
  rw [hvalue]

/-- **Going through the table finds a row if any valuation meets the demands.** -/
lemma finds_find? (demands : List (Formula × Bool)) :
    Finds demands ((assignmentsOver (Formula.varsOf (demands.map (·.1)))).find? fun a =>
      meets demands (a.orElse false)) where
  none_iff := by
    have hnot : DependsOn (fun v => !meets demands v)
        {x | x ∈ (Formula.varsOf (demands.map (·.1))).toList} :=
      fun v w h => congrArg _ (dependsOn_meets demands h)
    simpa using forall_assignmentsOver hnot
  covers := fun a ha => Formula.covers_of_mem (List.mem_of_find?_eq_some ha)
  values := by
    intro a ha d hd
    have hcovers := Formula.covers_of_mem (List.mem_of_find?_eq_some ha)
    rw [hcovers.evaluate_eq (List.mem_map_of_mem hd)]
    have hmeets := List.find?_some (p := fun a : Assignment => meets demands (a.orElse false)) ha
    simp only [meets, List.all_eq_true, beq_iff_eq] at hmeets
    exact congrArg _ (hmeets d hd)

namespace Formula

variable {premises : List Formula} {conclusion f g : Formula}

lemma findModel_finds (f : Formula) : Finds [(f, true)] f.findModel := by
  have h := finds_find? [(f, true)]
  simp only [meets, List.all_cons, List.all_nil, Bool.and_true, beq_true] at h
  rw [findModel, assignments, vars_eq_varsOf]
  exact h

lemma findCountermodel_finds (f : Formula) : Finds [(f, false)] f.findCountermodel := by
  have h := finds_find? [(f, false)]
  simp only [meets, List.all_cons, List.all_nil, Bool.and_true, beq_false] at h
  rw [findCountermodel, assignments, vars_eq_varsOf]
  exact h

/-- What speaks against an entailment: true premises and a false conclusion. -/
def against (premises : List Formula) (conclusion : Formula) : List (Formula × Bool) :=
  premises.map (·, true) ++ [(conclusion, false)]

lemma against_formulas (premises : List Formula) (conclusion : Formula) :
    (against premises conclusion).map (·.1) = premises ++ [conclusion] := by
  simp [against, Function.comp_def]

lemma meets_against (v : Valuation) :
    meets (against premises conclusion) v = (premises.all (·.eval v) && !conclusion.eval v) := by
  simp [meets, against, Function.comp_def]

lemma findEntailmentCountermodel_finds (premises : List Formula) (conclusion : Formula) :
    Finds (against premises conclusion) (findEntailmentCountermodel premises conclusion) := by
  have h := finds_find? (against premises conclusion)
  simp only [against_formulas, meets_against] at h
  exact h

/-! ## The deciders -/

/-- A formula passes its truth table exactly when it is true under every valuation. -/
lemma isTautology_iff : f.isTautology = true ↔ ∀ v, f.eval v = true := by
  have hnone : f.isTautology = true ↔ f.findCountermodel = none := by
    simp [isTautology, findCountermodel]
  rw [hnone, (findCountermodel_finds f).none_iff]
  simp [meets]

lemma isContradiction_iff : f.isContradiction = true ↔ ∀ v, f.eval v = false := by
  have hnone : f.isContradiction = true ↔ f.findModel = none := by
    simp [isContradiction, findModel]
  rw [hnone, (findModel_finds f).none_iff]
  simp [meets]

lemma isSatisfiable_iff : f.isSatisfiable = true ↔ ∃ v, f.eval v = true := by
  have hnot : f.isSatisfiable = !f.isContradiction := by
    simp [isSatisfiable, isContradiction, List.not_all_eq_any_not]
  rw [hnot, Bool.not_eq_true', ← Bool.not_eq_true, isContradiction_iff]
  simp

lemma entails_iff_none :
    findEntailmentCountermodel premises conclusion = none ↔ Entails premises conclusion := by
  rw [(findEntailmentCountermodel_finds premises conclusion).none_iff]
  refine forall_congr' fun v => ?_
  rw [meets_against, Bool.and_eq_false_iff, Bool.not_eq_false', ← Bool.not_eq_true,
    List.all_eq_true, ← imp_iff_not_or]

/-- Entailment is decided by the truth table of premises and conclusion. -/
lemma entails_iff : entails premises conclusion = true ↔ Entails premises conclusion := by
  rw [← entails_iff_none]
  simp [entails, findEntailmentCountermodel, imp_iff_not_or]

/-- Equivalence is decided by the truth table of the two formulas. -/
lemma isEquivalent_iff : isEquivalent f g = true ↔ ∀ v, f.eval v = g.eval v := by
  have hp : DependsOn (fun v => f.eval v == g.eval v) {x | x ∈ (varsOf [f, g]).toList} := by
    intro v w h
    have hf : f.eval v = f.eval w := dependsOn_varsOf (by simp) h
    have hg : g.eval v = g.eval w := dependsOn_varsOf (by simp) h
    simp only [hf, hg]
  have htable := forall_assignmentsOver hp
  simp only [beq_iff_eq] at htable
  simpa [isEquivalent, holds, evaluateOr] using htable

/-- **The deciders are right about all valuations.**  Each yes-or-no question has the answer that
going through all valuations would give.  A countermodel of an entailment, a model and a
countermodel of a formula are found exactly when there are any; they give a value to each name that
occurs and to no other, and under them evaluation succeeds with the truth values wanted.  In no row
of its table does a formula meet a name without a value. -/
theorem truth_tables_decide (premises : List Formula) (conclusion f g : Formula) :
    (entails premises conclusion = true ↔ Entails premises conclusion) ∧
    (findEntailmentCountermodel premises conclusion = none ↔ Entails premises conclusion) ∧
    (∀ a, findEntailmentCountermodel premises conclusion = some a →
      a.Covers (premises ++ [conclusion]) ∧ (∀ p ∈ premises, p.evaluate a = .ok true) ∧
        conclusion.evaluate a = .ok false) ∧
    (f.isTautology = true ↔ ∀ v, f.eval v = true) ∧
    (f.isContradiction = true ↔ ∀ v, f.eval v = false) ∧
    (f.isSatisfiable = true ↔ ∃ v, f.eval v = true) ∧
    (isEquivalent f g = true ↔ ∀ v, f.eval v = g.eval v) ∧
    (f.findModel = none ↔ ¬ ∃ v, f.eval v = true) ∧
    (∀ a, f.findModel = some a → a.Covers [f] ∧ f.evaluate a = .ok true) ∧
    (f.findCountermodel = none ↔ ¬ ∃ v, f.eval v = false) ∧
    (∀ a, f.findCountermodel = some a → a.Covers [f] ∧ f.evaluate a = .ok false) ∧
    (∀ a ∈ f.assignments, f.evaluate a = .ok (f.holds a)) := by
  have hagainst := findEntailmentCountermodel_finds premises conclusion
  have hmodel := findModel_finds f
  have hcounter := findCountermodel_finds f
  refine ⟨entails_iff, entails_iff_none, fun a ha => ⟨?_, fun p hp => ?_, ?_⟩, isTautology_iff,
    isContradiction_iff, isSatisfiable_iff, isEquivalent_iff, ?_, fun a ha => ?_, ?_,
    fun a ha => ?_, fun a ha => evaluate_of_mem_assignments ha⟩
  · rw [← against_formulas]
    exact hagainst.covers a ha
  · exact hagainst.values a ha (p, true) (by simp [against, hp])
  · exact hagainst.values a ha (conclusion, false) (by simp [against])
  · rw [hmodel.none_iff]
    simp [meets]
  · exact ⟨hmodel.covers a ha, hmodel.values a ha (f, true) List.mem_cons_self⟩
  · rw [hcounter.none_iff]
    simp [meets]
  · exact ⟨hcounter.covers a ha, hcounter.values a ha (f, false) List.mem_cons_self⟩

end Formula

end AnnealProver
