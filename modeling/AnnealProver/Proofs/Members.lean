import Mathlib.Algebra.Order.BigOperators.Group.List
import Mathlib.Algebra.Order.Ring.Nat
import AnnealProver.OrderedSet

/-!
# What the operations do to the members of a set

An ordered set keeps the first of two elements that are the same, so after an insertion the
inserted element need not be a member itself; only something that is the same is.  Statements about
all members, or about some member, survive this as long as they do not tell apart what is the same:
they **respect** the equivalence of the set.

`forall_insert`, `forall_insertAll` and `forall_erase` are the laws for such statements.  The plain
membership laws at the end are for equivalences that are equality.
-/

namespace AnnealProver.OrderedSet

variable {α : Type} {same : α → α → Bool} {s t : OrderedSet same} {a x : α}

/-- The statement does not tell apart what is the same. -/
def Respects (same : α → α → Bool) (P : α → Prop) : Prop :=
  ∀ a b, same a b = true → (P a ↔ P b)

lemma Respects.not {P : α → Prop} (h : Respects same P) : Respects same fun x => ¬ P x :=
  fun a b hab => not_congr (h a b hab)

/-- A set contains what is the same as one of its members. -/
lemma contains_iff : s.contains a = true ↔ ∃ x ∈ s.toList, same x a = true := by
  simp [contains]

/-- A statement true of all members is true of everything the set contains. -/
lemma forall_of_contains {P : α → Prop} (hP : Respects same P) (h : ∀ x ∈ s.toList, P x)
    (ha : s.contains a = true) : P a := by
  obtain ⟨x, hx, hxa⟩ := contains_iff.1 ha
  exact (hP x a hxa).1 (h x hx)

/-- Elements that are not the same are not equal. -/
lemma nodup (hrefl : ∀ a, same a a = true) (s : OrderedSet same) : s.toList.Nodup := by
  refine s.distinct.imp fun {a b} hne heq => ?_
  rw [heq, hrefl b] at hne
  cases hne

/-! ## Insertion -/

lemma mem_insert_of_mem (h : x ∈ s.toList) : x ∈ (s.insert a).toList := by
  rw [toList_insert]
  split_ifs
  · exact h
  · exact List.mem_append_left _ h

lemma mem_or_eq_of_mem_insert (h : x ∈ (s.insert a).toList) : x ∈ s.toList ∨ x = a := by
  rw [toList_insert] at h
  split_ifs at h
  · exact Or.inl h
  · simpa using h

/-- What was not there before becomes a member itself. -/
lemma mem_insert_self (h : s.contains a = false) : a ∈ (s.insert a).toList := by
  rw [toList_insert, h]
  simp

lemma forall_insert {P : α → Prop} (hP : Respects same P) :
    (∀ x ∈ (s.insert a).toList, P x) ↔ (∀ x ∈ s.toList, P x) ∧ P a := by
  rw [toList_insert]
  split_ifs with h
  · exact ⟨fun hs => ⟨hs, forall_of_contains hP hs h⟩, fun hs => hs.1⟩
  · simp [or_imp, forall_and]

/-! ## Insertion of a whole list -/

lemma mem_insertAll_of_mem {as : List α} (h : x ∈ s.toList) : x ∈ (s.insertAll as).toList := by
  induction as generalizing s with
  | nil => exact h
  | cons a as ih => exact ih (mem_insert_of_mem h)

lemma mem_or_mem_of_mem_insertAll {as : List α} (h : x ∈ (s.insertAll as).toList) :
    x ∈ s.toList ∨ x ∈ as := by
  induction as generalizing s with
  | nil => exact Or.inl h
  | cons a as ih =>
      rcases ih h with h | h
      · rcases mem_or_eq_of_mem_insert h with h | rfl
        · exact Or.inl h
        · exact Or.inr List.mem_cons_self
      · exact Or.inr (List.mem_cons_of_mem _ h)

lemma forall_insertAll {P : α → Prop} (hP : Respects same P) {as : List α} :
    (∀ x ∈ (s.insertAll as).toList, P x) ↔ (∀ x ∈ s.toList, P x) ∧ ∀ x ∈ as, P x := by
  induction as generalizing s with
  | nil => simp [insertAll]
  | cons a as ih =>
      have step : s.insertAll (a :: as) = (s.insert a).insertAll as := rfl
      rw [step, ih, forall_insert hP, List.forall_mem_cons, and_assoc]

lemma forall_ofList {P : α → Prop} (hP : Respects same P) {as : List α} :
    (∀ x ∈ (ofList as : OrderedSet same).toList, P x) ↔ ∀ x ∈ as, P x := by
  simp [ofList, forall_insertAll hP]

lemma exists_ofList {P : α → Prop} (hP : Respects same P) {as : List α} :
    (∃ x ∈ (ofList as : OrderedSet same).toList, P x) ↔ ∃ x ∈ as, P x := by
  have h := not_congr (forall_ofList hP.not : _ ↔ ∀ x ∈ as, ¬ P x)
  simpa only [not_forall, not_not, exists_prop] using h

lemma mem_of_mem_ofList {as : List α} (h : x ∈ (ofList as : OrderedSet same).toList) : x ∈ as := by
  simpa using mem_or_mem_of_mem_insertAll h

/-- Nothing is moved, and nothing but repetitions is left out. -/
lemma toList_insertAll_sublist {as : List α} :
    (s.insertAll as).toList.Sublist (s.toList ++ as) := by
  induction as generalizing s with
  | nil => simp [insertAll]
  | cons a as ih =>
      have hinsert : (s.insert a).toList.Sublist (s.toList ++ [a]) := by
        rw [toList_insert]
        split_ifs
        · exact List.sublist_append_left _ _
        · exact .refl _
      rw [← List.singleton_append, ← List.append_assoc]
      exact ih.trans (hinsert.append (.refl as))

/-- Where there are no repetitions nothing is left out. -/
lemma toList_insertAll_of_distinct {as : List α}
    (h : (s.toList ++ as).Pairwise fun a b => same a b = false) :
    (s.insertAll as).toList = s.toList ++ as := by
  induction as generalizing s with
  | nil => simp [insertAll]
  | cons a as ih =>
      have hnew : s.contains a = false := by
        rw [List.pairwise_append] at h
        simpa [contains] using fun x hx => h.2.2 x hx a List.mem_cons_self
      have hinsert : (s.insert a).toList = s.toList ++ [a] := by
        rw [toList_insert, hnew]
        rfl
      have hdistinct : ((s.insert a).toList ++ as).Pairwise fun a b => same a b = false := by
        simpa [hinsert] using h
      have hall : ((s.insert a).insertAll as).toList = (s.insert a).toList ++ as := ih hdistinct
      rw [hinsert, List.append_assoc] at hall
      exact hall

/-- A set is made of its own elements. -/
lemma insertAll_toList (t : OrderedSet same) : (∅ : OrderedSet same).insertAll t.toList = t := by
  have hlist : ((∅ : OrderedSet same).insertAll t.toList).toList = t.toList :=
    toList_insertAll_of_distinct t.distinct
  obtain ⟨as, has⟩ := t
  generalize (∅ : OrderedSet same).insertAll as = u at hlist ⊢
  obtain ⟨bs, hbs⟩ := u
  subst hlist
  rfl

/-! ## Removal -/

lemma mem_of_mem_erase (h : x ∈ (s.erase a).toList) : x ∈ s.toList :=
  (List.mem_filter.1 h).1

/-- Taking a member out and looking at it apart loses nothing. -/
lemma forall_erase {P : α → Prop} (hP : Respects same P) (ha : a ∈ s.toList) :
    (∀ x ∈ s.toList, P x) ↔ (∀ x ∈ (s.erase a).toList, P x) ∧ P a := by
  refine ⟨fun h => ⟨fun x hx => h x (mem_of_mem_erase hx), h a ha⟩, fun ⟨h, hPa⟩ x hx => ?_⟩
  by_cases hxa : same x a = true
  · exact (hP x a hxa).2 hPa
  · exact h x (List.mem_filter.2 ⟨hx, by simpa using hxa⟩)

/-! ## Weights -/

/-- Filtering out a member takes at least its weight off a list. -/
lemma sum_filter_add_le (w : α → ℕ) {p : α → Bool} (hp : p a = false) {as : List α}
    (ha : a ∈ as) : ((as.filter p).map w).sum + w a ≤ (as.map w).sum := by
  induction as with
  | nil => simp at ha
  | cons b as ih =>
      have hle : ((as.filter p).map w).sum ≤ (as.map w).sum :=
        (List.filter_sublist.map w).sum_le_sum fun _ _ => Nat.zero_le _
      rw [List.map_cons, List.sum_cons]
      rcases List.mem_cons.1 ha with rfl | ha
      · rw [List.filter_cons_of_neg (by simp [hp])]
        omega
      · have := ih ha
        by_cases hb : p b = true
        · rw [List.filter_cons_of_pos hb, List.map_cons, List.sum_cons]
          omega
        · rw [List.filter_cons_of_neg hb]
          omega

lemma sum_insert_le (w : α → ℕ) : ((s.insert a).toList.map w).sum ≤ (s.toList.map w).sum + w a := by
  rw [toList_insert]
  split_ifs
  · omega
  · simp

lemma sum_erase_add_le (w : α → ℕ) (hrefl : same a a = true) (ha : a ∈ s.toList) :
    ((s.erase a).toList.map w).sum + w a ≤ (s.toList.map w).sum :=
  sum_filter_add_le w (by simp [hrefl]) ha

/-! ## Sets up to equality -/

/-- Every statement respects an equivalence that relates nothing but equals. -/
lemma respects_of_eq (heq : ∀ a b, same a b = true → a = b) (P : α → Prop) : Respects same P := by
  intro a b hab
  rw [heq a b hab]

lemma mem_insertAll_iff (heq : ∀ a b, same a b = true → a = b) {as : List α} :
    x ∈ (s.insertAll as).toList ↔ x ∈ s.toList ∨ x ∈ as := by
  have h : _ ↔ (∀ y ∈ s.toList, y ≠ x) ∧ ∀ y ∈ as, y ≠ x :=
    forall_insertAll (respects_of_eq heq (· ≠ x))
  have hmem : ∀ ys : List α, (∀ y ∈ ys, y ≠ x) ↔ x ∉ ys :=
    fun ys => ⟨fun h hx => h x hx rfl, fun h y hy hyx => h (hyx ▸ hy)⟩
  rw [hmem, hmem, hmem, ← not_or, not_iff_not] at h
  exact h

lemma mem_ofList_iff (heq : ∀ a b, same a b = true → a = b) {as : List α} :
    x ∈ (ofList as : OrderedSet same).toList ↔ x ∈ as := by
  rw [ofList, mem_insertAll_iff heq]
  simp

end AnnealProver.OrderedSet
