import AnnealProver.Proofs.Meaning

/-!
# Alike formulas are one key

A table keyed by formulas looks a formula up by asking which key is **alike**.  That this works is
due to `alike` being an equivalence: reflexive (`alike_refl`), symmetric (`alike_symm`) and
transitive (`alike_trans`).  The proofs of the last two run through the connectives, and the
commutative ones all go by the same argument on sides that match straight or crosswise.

It is the least equivalence that swaps the sides of conjunctions, disjunctions and equivalences
anywhere in a formula (`alike_iff_reordered`).  So a function of formulas does not tell alike ones
apart as soon as it is computed from the parts and does not mind a swap at the root
(`eq_of_alike`).  Alike formulas are of the same size, for one, and a formula is never alike to one
of its proper parts.
-/

namespace AnnealProver

namespace Formula

/-! ## The sides of a commutative connective -/

/-- Two formulas side by side match two others, straight or crosswise. -/
def sidesAlike (a b c d : Formula) : Bool :=
  (a.alike c && b.alike d) || (a.alike d && b.alike c)

lemma sidesAlike_iff {a b c d : Formula} :
    sidesAlike a b c d = true ↔
      (a.alike c = true ∧ b.alike d = true) ∨ (a.alike d = true ∧ b.alike c = true) := by
  simp [sidesAlike]

lemma sidesAlike_symm {a b c d : Formula} (iha : ∀ {g}, a.alike g = true → g.alike a = true)
    (ihb : ∀ {g}, b.alike g = true → g.alike b = true) (h : sidesAlike a b c d = true) :
    sidesAlike c d a b = true := by
  rw [sidesAlike_iff] at h ⊢
  rcases h with ⟨hac, hbd⟩ | ⟨had, hbc⟩
  · exact Or.inl ⟨iha hac, ihb hbd⟩
  · exact Or.inr ⟨ihb hbc, iha had⟩

lemma sidesAlike_trans {a b c d p q : Formula}
    (iha : ∀ {g h}, a.alike g = true → g.alike h = true → a.alike h = true)
    (ihb : ∀ {g h}, b.alike g = true → g.alike h = true → b.alike h = true)
    (h₁ : sidesAlike a b c d = true) (h₂ : sidesAlike c d p q = true) :
    sidesAlike a b p q = true := by
  rw [sidesAlike_iff] at h₁ h₂ ⊢
  rcases h₁ with ⟨hac, hbd⟩ | ⟨had, hbc⟩ <;> rcases h₂ with ⟨hcp, hdq⟩ | ⟨hcq, hdp⟩
  · exact Or.inl ⟨iha hac hcp, ihb hbd hdq⟩
  · exact Or.inr ⟨iha hac hcq, ihb hbd hdp⟩
  · exact Or.inr ⟨iha had hdq, ihb hbc hcp⟩
  · exact Or.inl ⟨iha had hdp, ihb hbc hcq⟩

/-! ## An equivalence -/

lemma alike_symm {f g : Formula} (h : f.alike g = true) : g.alike f = true := by
  induction f generalizing g with
  | var x => cases g <;> simp_all [alike]
  | neg a ih =>
      cases g <;> simp only [alike, Bool.false_eq_true] at h
      exact ih h
  | impl a b iha ihb =>
      cases g <;> simp only [alike, Bool.false_eq_true, Bool.and_eq_true] at h ⊢
      exact ⟨iha h.1, ihb h.2⟩
  | conj a b iha ihb | disj a b iha ihb | iff a b iha ihb =>
      cases g <;> simp only [alike, Bool.false_eq_true] at h
      exact sidesAlike_symm iha ihb h

lemma alike_trans {f g h : Formula} (hfg : f.alike g = true) (hgh : g.alike h = true) :
    f.alike h = true := by
  induction f generalizing g h with
  | var x => cases g <;> cases h <;> simp_all [alike]
  | neg a ih =>
      cases g <;> cases h <;> simp only [alike, Bool.false_eq_true] at hfg hgh
      exact ih hfg hgh
  | impl a b iha ihb =>
      cases g <;> cases h <;> simp only [alike, Bool.false_eq_true, Bool.and_eq_true] at hfg hgh ⊢
      exact ⟨iha hfg.1 hgh.1, ihb hfg.2 hgh.2⟩
  | conj a b iha ihb | disj a b iha ihb | iff a b iha ihb =>
      cases g <;> cases h <;> simp only [alike, Bool.false_eq_true] at hfg hgh
      exact sidesAlike_trans iha ihb hfg hgh

/-- Being alike to a formula does not tell alike formulas apart. -/
lemma respects_alike (h : Formula) : OrderedSet.Respects alike fun f => f.alike h = true :=
  fun _ _ hfg => ⟨alike_trans (alike_symm hfg), alike_trans hfg⟩

/-! ## Swapping sides -/

/-- The formulas differ by any number of swaps, anywhere inside. -/
inductive Reordered : Formula → Formula → Prop
  | refl (f : Formula) : Reordered f f
  | symm {f g : Formula} : Reordered f g → Reordered g f
  | trans {f g h : Formula} : Reordered f g → Reordered g h → Reordered f h
  | neg {a b : Formula} : Reordered a b → Reordered (.neg a) (.neg b)
  | join (c : Connective) {a b a' b' : Formula} :
      Reordered a b → Reordered a' b' → Reordered (c.apply a a') (c.apply b b')
  | swap {c : Connective} (hc : c ≠ .impl) (a b : Formula) :
      Reordered (c.apply a b) (c.apply b a)

/-- Sides that match crosswise match straight after a swap. -/
lemma reordered_of_sidesAlike {c : Connective} (hc : c ≠ .impl) {a b p q : Formula}
    (iha : ∀ {g}, a.alike g = true → Reordered a g)
    (ihb : ∀ {g}, b.alike g = true → Reordered b g) (h : sidesAlike a b p q = true) :
    Reordered (c.apply a b) (c.apply p q) := by
  rcases sidesAlike_iff.1 h with ⟨hap, hbq⟩ | ⟨haq, hbp⟩
  · exact .join c (iha hap) (ihb hbq)
  · exact .trans (.join c (iha haq) (ihb hbp)) (.swap hc q p)

lemma reordered_of_alike {f g : Formula} (h : f.alike g = true) : Reordered f g := by
  induction f generalizing g with
  | var x =>
      cases g <;> simp only [alike, Bool.false_eq_true, beq_iff_eq] at h
      rw [h]
      exact .refl _
  | neg a ih =>
      cases g <;> simp only [alike, Bool.false_eq_true] at h
      exact .neg (ih h)
  | impl a b iha ihb =>
      cases g <;> simp only [alike, Bool.false_eq_true, Bool.and_eq_true] at h
      exact .join .impl (iha h.1) (ihb h.2)
  | conj a b iha ihb =>
      cases g <;> simp only [alike, Bool.false_eq_true] at h
      exact reordered_of_sidesAlike (c := .conj) (by simp) iha ihb h
  | disj a b iha ihb =>
      cases g <;> simp only [alike, Bool.false_eq_true] at h
      exact reordered_of_sidesAlike (c := .disj) (by simp) iha ihb h
  | iff a b iha ihb =>
      cases g <;> simp only [alike, Bool.false_eq_true] at h
      exact reordered_of_sidesAlike (c := .iff) (by simp) iha ihb h

lemma alike_of_reordered {f g : Formula} (h : Reordered f g) : f.alike g = true := by
  induction h with
  | refl f => exact alike_refl f
  | symm _ ih => exact alike_symm ih
  | trans _ _ ih₁ ih₂ => exact alike_trans ih₁ ih₂
  | neg _ ih => exact ih
  | join c _ _ ih ih' => cases c <;> simp [Connective.apply, alike, ih, ih']
  | @swap c hc a b => cases c <;> simp_all [Connective.apply, alike, alike_refl]

lemma alike_iff_reordered {f g : Formula} : f.alike g = true ↔ Reordered f g :=
  ⟨reordered_of_alike, alike_of_reordered⟩

/-- A function that is computed from the parts, and by all connectives but implication without
regard to the order of the sides, does not tell alike formulas apart. -/
lemma eq_of_alike {α : Type} (F : Formula → α)
    (hneg : ∀ a b, F a = F b → F (.neg a) = F (.neg b))
    (hjoin : ∀ (c : Connective) (a b a' b' : Formula), F a = F b → F a' = F b' →
      F (c.apply a a') = F (c.apply b b'))
    (hswap : ∀ c : Connective, c ≠ .impl → ∀ a b, F (c.apply a b) = F (c.apply b a))
    {f g : Formula} (h : f.alike g = true) : F f = F g := by
  have hreordered := reordered_of_alike h
  clear h
  induction hreordered with
  | refl f => rfl
  | symm _ ih => exact ih.symm
  | trans _ _ ih₁ ih₂ => exact ih₁.trans ih₂
  | neg _ ih => exact hneg _ _ ih
  | join c _ _ ih ih' => exact hjoin c _ _ _ _ ih ih'
  | swap hc a b => exact hswap _ hc a b

/-! ## What alike formulas have in common -/

lemma isVar_eq_of_alike {f g : Formula} (h : f.alike g = true) : f.isVar = g.isVar := by
  cases f <;> cases g <;> simp_all [alike, isVar]

lemma size_eq_of_alike {f g : Formula} (h : f.alike g = true) : f.size = g.size := by
  refine eq_of_alike size (fun a b hab => ?_) (fun c a b a' b' hab hab' => ?_)
    (fun c _ a b => ?_) h
  · rw [size, size, hab]
  · rw [size_apply, size_apply, hab, hab']
  · rw [size_apply, size_apply]
    omega

section Spellings

variable {f g p q : Formula}

lemma exists_of_alike_neg (h : f.alike (.neg p) = true) :
    ∃ p', f = .neg p' ∧ p'.alike p = true := by
  cases f <;> simp_all [alike]

lemma exists_of_alike_impl (h : f.alike (.impl p q) = true) :
    ∃ p' q', f = .impl p' q' ∧ p'.alike p = true ∧ q'.alike q = true := by
  cases f <;> simp_all [alike]

lemma exists_of_alike_conj (h : f.alike (.conj p q) = true) :
    ∃ p' q', f = .conj p' q' ∧ ((p'.alike p = true ∧ q'.alike q = true) ∨
      (p'.alike q = true ∧ q'.alike p = true)) := by
  cases f <;> simp_all [alike]

lemma exists_of_alike_disj (h : f.alike (.disj p q) = true) :
    ∃ p' q', f = .disj p' q' ∧ ((p'.alike p = true ∧ q'.alike q = true) ∨
      (p'.alike q = true ∧ q'.alike p = true)) := by
  cases f <;> simp_all [alike]

lemma opposite_alike (h : f.alike g = true) : f.opposite.alike g.opposite = true := by
  cases f <;> cases g <;> simp_all [alike, opposite]

end Spellings

/-- Every part of a formula is alike to some part of a formula alike to it. -/
lemma exists_alike_subformula {f g h : Formula} (hfg : f.alike g = true)
    (hh : h ∈ g.subformulas) : ∃ k ∈ f.subformulas, k.alike h = true := by
  induction f generalizing g with
  | var y =>
      cases g <;> simp only [alike, Bool.false_eq_true, beq_iff_eq] at hfg
      subst hfg
      exact ⟨h, hh, alike_refl h⟩
  | neg a ih =>
      cases g <;> simp only [alike, Bool.false_eq_true] at hfg
      rcases List.mem_cons.1 hh with rfl | hh
      · exact ⟨neg a, self_mem_subformulas _, hfg⟩
      · obtain ⟨k, hk, hkh⟩ := ih hfg hh
        exact ⟨k, List.mem_cons_of_mem _ hk, hkh⟩
  | impl a b iha ihb =>
      cases g <;> simp only [alike, Bool.false_eq_true] at hfg
      rcases List.mem_cons.1 hh with rfl | hh
      · exact ⟨impl a b, self_mem_subformulas _, hfg⟩
      · rw [Bool.and_eq_true] at hfg
        rcases List.mem_append.1 hh with hh | hh
        · obtain ⟨k, hk, hkh⟩ := iha hfg.1 hh
          exact ⟨k, by simp [subformulas, hk], hkh⟩
        · obtain ⟨k, hk, hkh⟩ := ihb hfg.2 hh
          exact ⟨k, by simp [subformulas, hk], hkh⟩
  | conj a b iha ihb | disj a b iha ihb | iff a b iha ihb =>
      cases g <;> simp only [alike, Bool.false_eq_true] at hfg
      rcases List.mem_cons.1 hh with rfl | hh
      · exact ⟨_, self_mem_subformulas _, hfg⟩
      · have hparts : ∃ k, (k ∈ a.subformulas ∨ k ∈ b.subformulas) ∧ k.alike h = true := by
          rcases sidesAlike_iff.1 hfg with ⟨hac, hbd⟩ | ⟨had, hbc⟩ <;>
            rcases List.mem_append.1 hh with hh | hh
          · exact (iha hac hh).imp fun k hk => ⟨Or.inl hk.1, hk.2⟩
          · exact (ihb hbd hh).imp fun k hk => ⟨Or.inr hk.1, hk.2⟩
          · exact (ihb hbc hh).imp fun k hk => ⟨Or.inr hk.1, hk.2⟩
          · exact (iha had hh).imp fun k hk => ⟨Or.inl hk.1, hk.2⟩
        obtain ⟨k, hk, hkh⟩ := hparts
        exact ⟨k, by simpa [subformulas] using Or.inr hk, hkh⟩

end Formula

/-! ## Looking formulas up -/

namespace FormulaSet

variable {kb : FormulaSet} {f g : Formula}

lemma contains_congr (h : f.alike g = true) : kb.contains f = kb.contains g := by
  rw [Bool.eq_iff_iff, OrderedSet.contains_iff, OrderedSet.contains_iff]
  constructor
  · rintro ⟨x, hx, hxf⟩
    exact ⟨x, hx, Formula.alike_trans hxf h⟩
  · rintro ⟨x, hx, hxg⟩
    exact ⟨x, hx, Formula.alike_trans hxg (Formula.alike_symm h)⟩

/-- The set of the formulas of a list contains what is alike to one of them. -/
lemma contains_ofList {fs : List Formula} :
    (OrderedSet.ofList fs : FormulaSet).contains f = f.isAmong fs := by
  rw [Bool.eq_iff_iff, OrderedSet.contains_iff, OrderedSet.exists_ofList (Formula.respects_alike f)]
  simp [Formula.isAmong]

/-- After an insertion a set contains what it did before, and every formula alike to the new one. -/
lemma contains_insert_iff :
    (kb.insert f).contains g = true ↔ kb.contains g = true ∨ f.alike g = true := by
  simp only [OrderedSet.contains_iff, OrderedSet.toList_insert]
  split_ifs with hknown
  · refine ⟨Or.inl, fun h => h.elim id fun hfg => ?_⟩
    obtain ⟨x, hx, hxf⟩ := hknown
    exact ⟨x, hx, Formula.alike_trans hxf hfg⟩
  · simp [or_and_right, exists_or]

lemma contains_insert_self : (kb.insert f).contains f = true :=
  contains_insert_iff.2 (Or.inr f.alike_refl)

lemma contains_erase_iff :
    (kb.erase f).contains g = true ↔ kb.contains g = true ∧ g.alike f = false := by
  simp only [OrderedSet.contains_iff, OrderedSet.erase, OrderedSet.toList_filter, List.mem_filter,
    Bool.not_eq_true']
  constructor
  · rintro ⟨x, ⟨hx, hxf⟩, hxg⟩
    refine ⟨⟨x, hx, hxg⟩, ?_⟩
    rw [← Bool.not_eq_true] at hxf ⊢
    exact fun hgf => hxf (Formula.alike_trans hxg hgf)
  · rintro ⟨⟨x, hx, hxg⟩, hgf⟩
    refine ⟨x, ⟨hx, ?_⟩, hxg⟩
    rw [← Bool.not_eq_true] at hgf ⊢
    exact fun hxf => hgf (Formula.alike_trans (Formula.alike_symm hxg) hxf)

end FormulaSet

lemma Formula.isAmong_congr {f g : Formula} {fs : List Formula} (h : f.alike g = true) :
    f.isAmong fs = g.isAmong fs := by
  rw [← FormulaSet.contains_ofList, ← FormulaSet.contains_ofList, FormulaSet.contains_congr h]

namespace FormulaTable

variable {υ : Type} {t : FormulaTable υ} {f g : Formula} {value : υ}

@[simp] lemma get?_empty : (∅ : FormulaTable υ).get? f = none := rfl

lemma get?_eq_none : t.get? f = none ↔ t.contains f = false := by
  simp [Table.get?, Table.contains]

/-- Alike formulas are looked up alike. -/
lemma get?_congr (h : f.alike g = true) : t.get? f = t.get? g := by
  have hkeys : ∀ entry : Formula × υ, entry.1.alike f = entry.1.alike g := by
    intro entry
    rw [Bool.eq_iff_iff]
    exact ⟨fun hf => Formula.alike_trans hf h,
      fun hg => Formula.alike_trans hg (Formula.alike_symm h)⟩
  simp only [Table.get?, hkeys]

/-- A new key is found under every formula alike to it, and the other keys are found as before. -/
lemma get?_insert (hnew : t.get? f = none) :
    (t.insert f value).get? g = if f.alike g = true then some value else t.get? g := by
  have hentries : (t.insert f value).entries = t.entries ++ [(f, value)] := by
    rw [Table.insert, get?_eq_none.1 hnew]
    rfl
  split_ifs with h
  · rw [get?_congr h] at hnew
    simp only [Table.get?, Option.map_eq_none_iff] at hnew
    simp [Table.get?, hentries, hnew, h]
  · simp [Table.get?, hentries, h]

lemma get?_insert_of_some (hnew : t.get? f = none) {other : υ} (h : t.get? g = some other) :
    (t.insert f value).get? g = some other := by
  have hdiffers : ¬ f.alike g = true := by
    intro hfg
    rw [get?_congr hfg, h] at hnew
    cases hnew
  rw [get?_insert hnew, if_neg hdiffers, h]

/-- What is said of all entries, without telling alike keys apart, has to be checked of the new
entry only. -/
lemma forall_get?_insert (hnew : t.get? f = none) {P : Formula → υ → Prop}
    (hP : ∀ g, f.alike g = true → P f value → P g value)
    (hold : ∀ g x, t.get? g = some x → P g x) (hvalue : P f value) :
    ∀ g x, (t.insert f value).get? g = some x → P g x := by
  intro g x hx
  rw [get?_insert hnew] at hx
  split_ifs at hx with hfg
  · obtain rfl := Option.some.inj hx
    exact hP g hfg hvalue
  · exact hold g x hx

end FormulaTable

end AnnealProver
