import AnnealProver.NormalForm.Resolution
import AnnealProver.Proofs.TruthTable

/-!
# Clauses and resolvents by their literals

Clauses are ordered sets of literals, but nothing about their meaning depends on the order.  This
file says for every operation on clauses which literals the result has, and derives the meaning
from that: `mem_resolve?` is the one description of a **resolvent** that later arguments use, with
the sign of the resolved name in the first clause as a variable, so that the two orders in which
the name can clash are one case.
-/

namespace AnnealProver

variable {v : Valuation}

/-! ## Pairs -/

lemma mem_of_mem_pairs {α : Type} {as : List α} {p : α × α} (h : p ∈ pairs as) :
    p.1 ∈ as ∧ p.2 ∈ as := by
  induction as with
  | nil => simp [pairs] at h
  | cons a as ih =>
      simp only [pairs, List.mem_append, List.mem_map] at h
      rcases h with ⟨b, hb, rfl⟩ | h
      · exact ⟨List.mem_cons_self, List.mem_cons_of_mem _ hb⟩
      · exact ⟨List.mem_cons_of_mem _ (ih h).1, List.mem_cons_of_mem _ (ih h).2⟩

/-- Two different elements are paired, in one of the two orders. -/
lemma mem_pairs_of_ne {α : Type} {as : List α} {a b : α} (ha : a ∈ as) (hb : b ∈ as)
    (hne : a ≠ b) : (a, b) ∈ pairs as ∨ (b, a) ∈ pairs as := by
  induction as with
  | nil => simp at ha
  | cons c as ih =>
      simp only [pairs, List.mem_append, List.mem_map, Prod.mk.injEq]
      rcases List.mem_cons.1 ha with rfl | hatail
      · have hbtail := (List.mem_cons.1 hb).resolve_left hne.symm
        exact Or.inl (Or.inl ⟨b, hbtail, rfl, rfl⟩)
      · rcases List.mem_cons.1 hb with rfl | hbtail
        · exact Or.inr (Or.inl ⟨a, hatail, rfl, rfl⟩)
        · exact (ih hatail hbtail).imp Or.inr Or.inr

/-! ## Joined formulas -/

namespace Formula

lemma eval_foldl_conj (f : Formula) (fs : List Formula) :
    (fs.foldl Connective.conj.apply f).eval v = (f :: fs).all (·.eval v) := by
  induction fs generalizing f with
  | nil => simp
  | cons g fs ih =>
      rw [List.foldl_cons, ih]
      simp [Connective.apply, eval, Bool.and_assoc]

lemma eval_foldl_disj (f : Formula) (fs : List Formula) :
    (fs.foldl Connective.disj.apply f).eval v = (f :: fs).any (·.eval v) := by
  induction fs generalizing f with
  | nil => simp
  | cons g fs ih =>
      rw [List.foldl_cons, ih]
      simp [Connective.apply, eval, Bool.or_assoc]

lemma names_foldl (c : Connective) (f : Formula) (fs : List Formula) :
    (fs.foldl c.apply f).names = (f :: fs).flatMap names := by
  induction fs generalizing f with
  | nil => simp
  | cons g fs ih =>
      rw [List.foldl_cons, ih]
      simp

end Formula

/-! ## Literals -/

namespace Literal

@[simp] lemma eval_toFormula (l : Literal) : l.toFormula.eval v = l.eval v := by
  rcases l with ⟨x, _ | _⟩ <;> cases hx : v x <;> simp [toFormula, eval, Formula.eval, hx]

lemma eval_flip (x : String) (b : Bool) : eval v ⟨x, !b⟩ = !eval v ⟨x, b⟩ := by
  cases b <;> cases hx : v x <;> simp [eval, hx]

end Literal

namespace Clause

variable {c d r : Clause} {l : Literal} {x : String}

/-! ## Which literals there are -/

@[simp] lemma mem_ofList {ls : List Literal} : l ∈ (ofList ls).toList ↔ l ∈ ls :=
  OrderedSet.mem_ofList_iff fun _ _ => eq_of_beq

lemma nodup_toList (c : Clause) : c.toList.Nodup :=
  OrderedSet.nodup (fun _ => beq_self_eq_true _) c.literals

@[simp] lemma mem_union : l ∈ (c.union d).toList ↔ l ∈ c.toList ∨ l ∈ d.toList :=
  OrderedSet.mem_insertAll_iff fun _ _ => eq_of_beq

@[simp] lemma mem_remove {k : Literal} : l ∈ (c.remove k).toList ↔ l ∈ c.toList ∧ l ≠ k := by
  simp [remove, toList, OrderedSet.erase]

@[simp] lemma contains_iff_mem : c.contains l = true ↔ l ∈ c.toList := by
  simp [contains, OrderedSet.contains_iff, toList]

lemma mem_positives : x ∈ c.positives ↔ ⟨x, true⟩ ∈ c.toList := by
  simp only [positives, List.mem_map, List.mem_filter]
  constructor
  · rintro ⟨⟨y, b⟩, ⟨hl, hb⟩, hy⟩
    simp only at hb hy
    subst hb hy
    exact hl
  · exact fun h => ⟨_, ⟨h, rfl⟩, rfl⟩

lemma mem_negatives : x ∈ c.negatives ↔ ⟨x, false⟩ ∈ c.toList := by
  simp only [negatives, List.mem_map, List.mem_filter]
  constructor
  · rintro ⟨⟨y, b⟩, ⟨hl, hb⟩, hy⟩
    simp only [Bool.not_eq_true'] at hb hy
    subst hb hy
    exact hl
  · exact fun h => ⟨_, ⟨h, rfl⟩, rfl⟩

lemma isEmpty_iff : c.isEmpty = true ↔ ∀ l, l ∉ c.toList := by
  simp [isEmpty, OrderedSet.isEmpty, toList, List.eq_nil_iff_forall_not_mem]

lemma isTautology_iff :
    c.isTautology = true ↔ ∃ x, ⟨x, true⟩ ∈ c.toList ∧ ⟨x, false⟩ ∈ c.toList := by
  simp [isTautology, mem_positives, mem_negatives]

/-- A clause that is not true anyway has a name with one sign only. -/
lemma not_mem_flip {b : Bool} (h : c.isTautology = false) (hl : ⟨x, b⟩ ∈ c.toList) :
    ⟨x, !b⟩ ∉ c.toList := by
  intro hflip
  have htaut : c.isTautology = true := by
    rw [isTautology_iff]
    refine ⟨x, ?_⟩
    cases b <;> simp_all
  simp [htaut] at h

/-- Clauses are the same exactly when they have the same literals. -/
lemma same_iff : c.same d = true ↔ ∀ l, l ∈ c.toList ↔ l ∈ d.toList := by
  have hsubset : ∀ c d : Clause, c.literals.subset d.literals = true ↔
      ∀ l ∈ c.toList, l ∈ d.toList := by
    intro c d
    simp only [OrderedSet.subset, List.all_eq_true]
    exact forall₂_congr fun l _ => contains_iff_mem
  simp only [same, Bool.and_eq_true, hsubset, ← forall_and]
  exact forall_congr' fun l => iff_def.symm

/-! ## Truth -/

lemma eval_iff : c.eval v = true ↔ ∃ l ∈ c.toList, l.eval v = true := by
  simp [eval]

/-- Truth does not tell clauses with the same literals apart. -/
lemma respects_eval (v : Valuation) : OrderedSet.Respects same fun c => c.eval v = true := by
  intro c d h
  simp only [eval_iff, same_iff.1 h]

lemma eval_ofList {ls : List Literal} : (ofList ls).eval v = ls.any (·.eval v) := by
  rw [Bool.eq_iff_iff, eval_iff]
  simp

/-- A clause read as a formula has the same value; the one without literals is false like the
formula that stands for falsity. -/
@[simp] lemma eval_toFormula (c : Clause) : c.toFormula.eval v = c.eval v := by
  rw [toFormula, eval]
  cases c.toList with
  | nil => simp [Formula.join?, Formula.eval]
  | cons l ls =>
      simp only [Formula.join?, List.map_cons, Option.getD_some, Formula.eval_foldl_disj]
      simp [List.any_map, Function.comp_def]

/-! ## Resolution -/

/-- Two clauses clash on a name that the first has with some sign and the second with the other. -/
lemma mem_clashes :
    x ∈ (c.clashes d).toList ↔ ∃ b, ⟨x, b⟩ ∈ c.toList ∧ ⟨x, !b⟩ ∈ d.toList := by
  rw [clashes, mem_nameSet_ofList]
  simp [mem_positives, mem_negatives, or_comm]

/-- A resolvent has the literals of both clauses but for the two that clash. -/
lemma mem_resolve? (h : c.resolve? d x = some r) :
    ∃ b, ⟨x, b⟩ ∈ c.toList ∧ ⟨x, !b⟩ ∈ d.toList ∧
      ∀ l, l ∈ r.toList ↔ (l ∈ c.toList ∧ l ≠ ⟨x, b⟩) ∨ (l ∈ d.toList ∧ l ≠ ⟨x, !b⟩) := by
  simp only [resolve?, Bool.and_eq_true, contains_iff_mem] at h
  split_ifs at h with htrue hfalse
  · obtain rfl := Option.some.inj h
    exact ⟨true, htrue.1, htrue.2, fun l => by simp⟩
  · obtain rfl := Option.some.inj h
    exact ⟨false, hfalse.1, hfalse.2, fun l => by simp⟩

/-- There is a resolvent on every name on which the clauses clash. -/
lemma exists_resolve? (h : x ∈ (c.clashes d).toList) : ∃ r, c.resolve? d x = some r := by
  obtain ⟨b, hc, hd⟩ := mem_clashes.1 h
  rw [resolve?]
  split_ifs with htrue hfalse
  · exact ⟨_, rfl⟩
  · exact ⟨_, rfl⟩
  · simp only [Bool.and_eq_true, contains_iff_mem] at htrue hfalse
    cases b
    · exact absurd ⟨hc, hd⟩ hfalse
    · exact absurd ⟨hc, hd⟩ htrue

/-- **Resolution is sound**: under any valuation one of the two clashing literals is false, so the
clause it came from is true by a literal that the resolvent keeps. -/
lemma eval_resolve? (h : c.resolve? d x = some r) (hc : c.eval v = true) (hd : d.eval v = true) :
    r.eval v = true := by
  obtain ⟨b, -, -, hr⟩ := mem_resolve? h
  obtain ⟨l, hl, hlv⟩ := eval_iff.1 hc
  obtain ⟨k, hk, hkv⟩ := eval_iff.1 hd
  rw [eval_iff]
  by_cases hlx : l = ⟨x, b⟩
  · have hkx : k ≠ ⟨x, !b⟩ := by
      rintro rfl
      rw [hlx] at hlv
      rw [Literal.eval_flip, hlv] at hkv
      simp at hkv
    exact ⟨k, (hr k).2 (Or.inr ⟨hk, hkx⟩), hkv⟩
  · exact ⟨l, (hr l).2 (Or.inl ⟨hl, hlx⟩), hlv⟩

end Clause

end AnnealProver
