import Mathlib.Data.List.Lex
import Mathlib.Data.List.Nodup
import Mathlib.Data.String.Basic
import Mathlib.Order.BooleanAlgebra.Basic
import AnnealProver.Proofs.TruthTable

/-!
# The rows of a truth table in their order

`rowsOver` puts the rows with the first name false before those with it true, so the rows ascend in
the dictionary order of their values (`pairwise_rowsOver`).  An ascending list has no repetitions,
and what a search from its beginning finds first is the least of all there is to find
(`find?_eq_some_iff_least`).

The names themselves ascend by code points (`pairwise_sortNames`).  Together this pins the list of
assignments down (`Enumerates`), and with it what the four consumers of the list return: the truth
table, all models, the first model and the first countermodel.
-/

namespace AnnealProver

/-! ## Rows -/

lemma length_rowsOver (xs : List String) : (rowsOver xs).length = 2 ^ xs.length := by
  induction xs with
  | nil => rfl
  | cons x xs ih =>
      simp only [rowsOver, List.length_append, List.length_map, List.length_cons, ih]
      omega

/-- Rows ascend in the dictionary order of their values, false before true. -/
lemma pairwise_rowsOver (xs : List String) :
    (rowsOver xs).Pairwise fun r s => r.map (·.2) < s.map (·.2) := by
  induction xs with
  | nil => exact List.pairwise_singleton _ _
  | cons x xs ih =>
      simp only [rowsOver, List.pairwise_append, List.pairwise_map, List.mem_map]
      -- inside each half the tails decide, between the halves the first value
      refine ⟨ih.imp fun h => ?_, ih.imp fun h => ?_, ?_⟩
      · exact List.cons_lt_cons_iff.2 (Or.inr ⟨rfl, h⟩)
      · exact List.cons_lt_cons_iff.2 (Or.inr ⟨rfl, h⟩)
      · rintro _ ⟨r, -, rfl⟩ _ ⟨s, -, rfl⟩
        exact List.cons_lt_cons_iff.2 (Or.inl Bool.false_lt_true)

/-! ## Names -/

lemma perm_sortNames (xs : List String) : (sortNames xs).Perm xs :=
  List.mergeSort_perm _ _

/-- The names of a set, sorted, ascend by code points. -/
lemma pairwise_sortNames (names : NameSet) : (sortNames names.toList).Pairwise (· < ·) := by
  have hsorted : (sortNames names.toList).Pairwise fun x y => decide (x ≤ y) = true := by
    apply List.pairwise_mergeSort
    · intro x y z hxy hyz
      rw [decide_eq_true_eq] at hxy hyz ⊢
      exact le_trans hxy hyz
    · intro x y
      simpa using le_total x y
  have hnodup : (sortNames names.toList).Nodup :=
    (perm_sortNames _).nodup_iff.2 (nodup_nameSet names)
  exact (hsorted.and hnodup).imp fun h => lt_of_le_of_ne (of_decide_eq_true h.1) h.2

/-- An assignment without repeated names is known by the values it gives. -/
lemma Assignment.eq_row {a : Assignment} (hnodup : a.keys.Nodup) {v : Valuation}
    (h : ∀ x ∈ a.keys, a.get? x = some (v x)) : a = ⟨a.keys.map fun x => (x, v x)⟩ := by
  have hentry : ∀ entry ∈ a.entries, (entry.1, v entry.1) = entry := by
    intro entry hmem
    have hkey : entry.1 ∈ a.keys := List.mem_map_of_mem hmem
    obtain ⟨found, hfound, hvalue⟩ := Option.map_eq_some_iff.1 (h entry.1 hkey)
    have hname : found.1 = entry.1 := by simpa using List.find?_some hfound
    have hsame : found = entry :=
      List.inj_on_of_nodup_map hnodup (List.mem_of_find?_eq_some hfound) hmem hname
    rw [← hvalue, hsame]
  have hentries : a.keys.map (fun x => (x, v x)) = a.entries := by
    rw [Table.keys, List.map_map]
    exact (List.map_congr_left hentry).trans (List.map_id _)
  rw [hentries]

/-! ## The list of assignments -/

/-- The rows are the assignments of the names, each of them once, in the dictionary order of their
values: names in the order of their code points, false before true. -/
structure Enumerates (rows : List Assignment) (names : NameSet) : Prop where
  names_ascend : ∀ a ∈ rows, a.keys.Pairwise (· < ·)
  names_exact : ∀ a ∈ rows, ∀ x, x ∈ a.keys ↔ x ∈ names.toList
  ascend : rows.Pairwise fun a b => a.values < b.values
  one_each : ∀ v : Valuation, ∃! a, a ∈ rows ∧ ∀ x ∈ names.toList, a.get? x = some (v x)
  nodup : rows.Nodup
  count : rows.length = 2 ^ names.size

lemma pairwise_assignmentsOver (names : NameSet) :
    (assignmentsOver names).Pairwise fun a b => a.values < b.values :=
  List.pairwise_map.2 (pairwise_rowsOver _)

lemma enumerates_assignmentsOver (names : NameSet) : Enumerates (assignmentsOver names) names where
  names_ascend := by
    intro a ha
    rw [mem_assignmentsOver.1 ha]
    exact pairwise_sortNames names
  names_exact := by
    intro a ha x
    rw [mem_assignmentsOver.1 ha]
    exact (perm_sortNames _).mem_iff
  ascend := pairwise_assignmentsOver names
  one_each := by
    intro v
    have hmem : ∀ {x}, x ∈ sortNames names.toList ↔ x ∈ names.toList := (perm_sortNames _).mem_iff
    refine ⟨⟨(sortNames names.toList).map fun x => (x, v x)⟩, ⟨?_, ?_⟩, ?_⟩
    · exact List.mem_map_of_mem (mem_rowsOver v _)
    · exact fun x hx => get?_row v (hmem.2 hx)
    · rintro a ⟨ha, hvalues⟩
      have hkeys := mem_assignmentsOver.1 ha
      have hnodup : a.keys.Nodup := by
        rw [hkeys]
        exact (perm_sortNames _).nodup_iff.2 (nodup_nameSet names)
      rw [← hkeys]
      refine Assignment.eq_row hnodup fun x hx => hvalues x ?_
      rw [hkeys] at hx
      exact hmem.1 hx
  nodup := (pairwise_assignmentsOver names).imp fun h heq => by simp [heq] at h
  count := by
    rw [assignmentsOver, List.length_map, length_rowsOver, (perm_sortNames _).length_eq]
    rfl

/-- What is found first in an ascending list is the least of all there is to find. -/
lemma find?_eq_some_iff_least {rows : List Assignment}
    (hrows : rows.Pairwise fun a b => a.values < b.values) {p : Assignment → Bool}
    {a : Assignment} :
    rows.find? p = some a ↔
      a ∈ rows ∧ p a = true ∧ ∀ b ∈ rows, p b = true → a.values ≤ b.values := by
  induction rows with
  | nil => simp
  | cons c rows ih =>
      obtain ⟨hfirst, hrest⟩ := List.pairwise_cons.1 hrows
      by_cases hc : p c = true
      · rw [List.find?_cons_of_pos hc, Option.some.injEq]
        constructor
        · rintro rfl
          refine ⟨List.mem_cons_self, hc, List.forall_mem_cons.2 ⟨fun _ => le_rfl, ?_⟩⟩
          exact fun b hb _ => (hfirst b hb).le
        · rintro ⟨ha, -, hleast⟩
          -- nothing after the first row is below it
          rcases List.mem_cons.1 ha with rfl | ha
          · rfl
          · exact absurd (hfirst a ha) (hleast c List.mem_cons_self hc).not_gt
      · rw [List.find?_cons_of_neg hc, ih hrest, List.mem_cons, List.forall_mem_cons]
        constructor
        · exact fun ⟨ha, hpa, hleast⟩ => ⟨Or.inr ha, hpa, fun h => absurd h hc, hleast⟩
        · rintro ⟨rfl | ha, hpa, -, hleast⟩
          · exact absurd hpa hc
          · exact ⟨ha, hpa, hleast⟩

/-! ## The consumers of the list -/

namespace Formula

/-- The formula evaluates to the value under the assignment, and under none of its assignments that
comes before. -/
structure FirstWith (f : Formula) (value : Bool) (a : Assignment) : Prop where
  mem : a ∈ f.assignments
  gives : f.evaluate a = .ok value
  least : ∀ b ∈ f.assignments, f.evaluate b = .ok value → a.values ≤ b.values

variable {f : Formula} {a : Assignment}

lemma evaluate_eq_ok_iff_holds (ha : a ∈ f.assignments) {value : Bool} :
    f.evaluate a = .ok value ↔ f.holds a = value := by
  rw [evaluate_of_mem_assignments ha, Except.ok.injEq]

/-- A search for a row with a truth value finds the first one with it. -/
lemma find?_eq_some_iff_firstWith {value : Bool} :
    (f.assignments.find? fun a => f.holds a == value) = some a ↔ f.FirstWith value a := by
  have hascend : f.assignments.Pairwise fun a b => a.values < b.values :=
    pairwise_assignmentsOver f.vars
  rw [find?_eq_some_iff_least hascend]
  constructor
  · rintro ⟨ha, hvalue, hleast⟩
    refine ⟨ha, (evaluate_eq_ok_iff_holds ha).2 (beq_iff_eq.1 hvalue), fun b hb hbvalue => ?_⟩
    exact hleast b hb (beq_iff_eq.2 ((evaluate_eq_ok_iff_holds hb).1 hbvalue))
  · rintro ⟨ha, hvalue, hleast⟩
    refine ⟨ha, beq_iff_eq.2 ((evaluate_eq_ok_iff_holds ha).1 hvalue), fun b hb hbvalue => ?_⟩
    exact hleast b hb ((evaluate_eq_ok_iff_holds hb).2 (beq_iff_eq.1 hbvalue))

lemma find?_eq_none_iff_evaluate {value : Bool} :
    (f.assignments.find? fun a => f.holds a == value) = none ↔
      ∀ a ∈ f.assignments, f.evaluate a ≠ .ok value := by
  rw [List.find?_eq_none]
  refine forall₂_congr fun a ha => ?_
  rw [beq_iff_eq, ne_eq, evaluate_eq_ok_iff_holds ha]

/-- **Models are enumerated exactly.**  The assignments of a formula are those of its variables,
each once, in dictionary order.  The truth table has these rows, in this order, with the values that
evaluation gives.  All models are the sublist of the rows with the value true, and the first model
and the first countermodel are the first rows with the value true and false, where there are any. -/
theorem models_enumerated (f : Formula) :
    Enumerates f.assignments f.vars ∧
    (f.truthTable.map (·.1) = f.assignments ∧
      ∀ row ∈ f.truthTable, f.evaluate row.1 = .ok row.2) ∧
    (f.findModels.Sublist f.assignments ∧
      ∀ a, a ∈ f.findModels ↔ a ∈ f.assignments ∧ f.evaluate a = .ok true) ∧
    (∀ a, f.findModel = some a ↔ f.FirstWith true a) ∧
    (f.findModel = none ↔ ∀ a ∈ f.assignments, f.evaluate a ≠ .ok true) ∧
    (∀ a, f.findCountermodel = some a ↔ f.FirstWith false a) ∧
    (f.findCountermodel = none ↔ ∀ a ∈ f.assignments, f.evaluate a ≠ .ok false) := by
  have hmodel : f.findModel = f.assignments.find? fun a => f.holds a == true := by
    simp [findModel]
  have hcountermodel : f.findCountermodel = f.assignments.find? fun a => f.holds a == false := by
    simp [findCountermodel]
  refine ⟨enumerates_assignmentsOver f.vars, ⟨?_, ?_⟩, ⟨List.filter_sublist, fun a => ?_⟩,
    ?_, ?_, ?_, ?_⟩
  · simp [truthTable, Function.comp_def]
  · intro row hrow
    obtain ⟨a, ha, rfl⟩ := List.mem_map.1 hrow
    exact evaluate_of_mem_assignments ha
  · rw [findModels, List.mem_filter]
    exact and_congr_right fun ha => (evaluate_eq_ok_iff_holds ha).symm
  · intro a
    rw [hmodel, find?_eq_some_iff_firstWith]
  · rw [hmodel, find?_eq_none_iff_evaluate]
  · intro a
    rw [hcountermodel, find?_eq_some_iff_firstWith]
  · rw [hcountermodel, find?_eq_none_iff_evaluate]

end Formula

end AnnealProver
