import Mathlib.Data.List.Permutation
import AnnealProver.Proofs.Consequences
import AnnealProver.Proofs.Strategies

/-!
# What the order of the knowledge decides

A knowledge base is a set, but the rules go through it in its order, and of two formulas that are
alike it keeps the one that came first.  So two searches that know the **same** formulas
(`FormulaSet.Same`) still do not draw the same inferences.

What they draw is **matched**: whatever is concluded from some formulas is concluded, up to
spelling, from any knowledge that they are **within** (`FormulaSet.Within`).  Two rules are an
exception.  The left side of a conjunction is the right side of another spelling, so the two
eliminations are matched only together.  And a resolvent lists its literals in the order in which
they came and groups them to the left, which is a matter of spelling for two of them but not for
three.  An inference that is no such exception is **firm**: more knowledge, in whatever order,
allows its conclusion too (`Rule.exists_alike_of_firm`).

A round of forward search takes up only the first few inferences, and which ones are first depends
on the order again.
-/

namespace AnnealProver

/-! ## Spellings -/

namespace Formula

variable {p q : Formula}

lemma conj_alike {p' q' : Formula} (hp : p'.alike p = true) (hq : q'.alike q = true) :
    (conj p' q').alike (.conj p q) = true ∧ (conj q' p').alike (.conj p q) = true := by
  simp [alike, hp, hq]

end Formula

namespace FormulaSet

variable {kb kb' : FormulaSet} {f f' p q : Formula}

/-- The second set contains what the first does, in whatever order and spelling. -/
def Within (kb kb' : FormulaSet) : Prop :=
  ∀ f, kb.contains f = true → kb'.contains f = true

/-- The sets contain the same formulas, in whatever order and spelling. -/
def Same (kb kb' : FormulaSet) : Prop :=
  ∀ f, kb.contains f = kb'.contains f

lemma Same.symm (h : Same kb kb') : Same kb' kb :=
  fun f => (h f).symm

lemma Same.within (h : Same kb kb') : Within kb kb' :=
  fun f hf => h f ▸ hf

lemma Within.trans {kb'' : FormulaSet} (h : Within kb kb') (h' : Within kb' kb'') :
    Within kb kb'' :=
  fun f hf => h' f (h f hf)

lemma Within.contains (h : Within kb kb') (halike : f'.alike f = true)
    (hf : kb.contains f = true) : kb'.contains f' = true := by
  rw [contains_congr halike]
  exact h f hf

lemma Within.exists_mem (h : Within kb kb') (hf : f ∈ kb.toList) :
    ∃ f' ∈ kb'.toList, f'.alike f = true :=
  OrderedSet.contains_iff.1 (h f (contains_of_mem hf))

lemma not_alike_of_mem_pairs (h : (p, q) ∈ pairs kb.toList) : p.alike q = false := by
  have hrelated : ∀ fs : List Formula, fs.Pairwise (fun a b => a.alike b = false) →
      (p, q) ∈ pairs fs → p.alike q = false := by
    intro fs hfs hpq
    induction hfs with
    | nil => simp [pairs] at hpq
    | cons hhead _ ih =>
        simp only [pairs, List.mem_append, List.mem_map, Prod.mk.injEq] at hpq
        rcases hpq with ⟨b, hb, rfl, rfl⟩ | hpq
        · exact hhead b hb
        · exact ih hpq
  exact hrelated _ kb.distinct h

/-- What is paired in one set is paired in the other, in one order or the other. -/
lemma Within.exists_pair (h : Within kb kb') (hpq : (p, q) ∈ pairs kb.toList) :
    ∃ p' q', p'.alike p = true ∧ q'.alike q = true ∧
      ((p', q') ∈ pairs kb'.toList ∨ (q', p') ∈ pairs kb'.toList) := by
  obtain ⟨hp, hq⟩ := mem_of_mem_pairs hpq
  obtain ⟨p', hp', hpp'⟩ := h.exists_mem hp
  obtain ⟨q', hq', hqq'⟩ := h.exists_mem hq
  refine ⟨p', q', hpp', hqq', mem_pairs_of_ne hp' hq' ?_⟩
  rintro rfl
  have halike := Formula.alike_trans (Formula.alike_symm hpp') hqq'
  simp [not_alike_of_mem_pairs hpq] at halike

end FormulaSet

open FormulaSet (Within Same)

/-! ## Resolvents -/

lemma mem_pairs_filterMap {α β : Type} {g : α → Option β} {as : List α} {b b' : β} :
    (b, b') ∈ pairs (as.filterMap g) ↔
      ∃ a a', (a, a') ∈ pairs as ∧ g a = some b ∧ g a' = some b' := by
  induction as with
  | nil => simp [pairs]
  | cons a as ih =>
      cases hg : g a with
      | none =>
          rw [List.filterMap_cons_none hg, ih]
          simp only [pairs, List.mem_append, List.mem_map, Prod.mk.injEq]
          grind
      | some c =>
          rw [List.filterMap_cons_some hg]
          simp only [pairs, List.mem_append, List.mem_map, Prod.mk.injEq, List.mem_filterMap, ih]
          grind

namespace Clause

variable {c c' d d' r : Clause} {x : String}

/-- A resolvent that is not true anyway tells with which signs the name clashed: had it clashed the
other way as well, the resolvent would have kept both. -/
lemma eq_sign_of_rest {b b' : Bool} (hr : r.isTautology = false)
    (hrest : ∀ l, l ∈ r.toList ↔ Rest c d x b l) (hc : ⟨x, b'⟩ ∈ c.toList)
    (hd : ⟨x, !b'⟩ ∈ d.toList) : b' = b := by
  by_contra hne
  obtain rfl : b' = !b := by cases b <;> cases b' <;> simp_all
  have hflip : (⟨x, !b⟩ : Literal) ∈ r.toList := (hrest _).2 (Or.inl ⟨hc, by simp⟩)
  have hkept : (⟨x, b⟩ : Literal) ∈ r.toList := (hrest _).2 (Or.inr ⟨by simpa using hd, by simp⟩)
  exact not_mem_flip hr hkept hflip

/-- Clauses with the same literals have resolvents with the same literals, in either order. -/
lemma exists_resolve?_same (hc : ∀ l, l ∈ c'.toList ↔ l ∈ c.toList)
    (hd : ∀ l, l ∈ d'.toList ↔ l ∈ d.toList) (h : c.resolve? d x = some r)
    (hr : r.isTautology = false) :
    (∃ r', c'.resolve? d' x = some r' ∧ ∀ l, l ∈ r'.toList ↔ l ∈ r.toList) ∧
      ∃ r', d'.resolve? c' x = some r' ∧ ∀ l, l ∈ r'.toList ↔ l ∈ r.toList := by
  obtain ⟨b, hxc, hxd, hrest⟩ := mem_resolve? h
  have hsame : ∀ l, Rest c' d' x b l ↔ l ∈ r.toList := by
    intro l
    rw [hrest, Rest, hc, hd]
  rw [← hc] at hxc
  rw [← hd] at hxd
  constructor
  · obtain ⟨r', hr'⟩ := exists_resolve? (mem_clashes.2 ⟨b, hxc, hxd⟩)
    obtain ⟨b', hxc', hxd', hrest'⟩ := mem_resolve? hr'
    obtain rfl := eq_sign_of_rest hr (fun l => (hsame l).symm) hxc' hxd'
    exact ⟨r', hr', fun l => (hrest' l).trans (hsame l)⟩
  · obtain ⟨r', hr'⟩ := exists_resolve? (mem_clashes.2 ⟨!b, hxd, by simpa using hxc⟩)
    obtain ⟨b', hxd', hxc', hrest'⟩ := mem_resolve? hr'
    have hsign : (!b') = b :=
      eq_sign_of_rest hr (fun l => (hsame l).symm) hxc' (by simpa using hxd')
    subst hsign
    refine ⟨r', hr', fun l => (hrest' l).trans ?_⟩
    rw [← hsame l, ← rest_swap, Bool.not_not]
    exact Iff.rfl

/-- Up to two literals make formulas that are alike in whatever order they come. -/
lemma toFormula_alike (h : ∀ l, l ∈ c.toList ↔ l ∈ d.toList) (hlength : d.toList.length ≤ 2) :
    c.toFormula.alike d.toFormula = true := by
  have hperm := (List.perm_ext_iff_of_nodup c.nodup_toList d.nodup_toList).2 h
  rw [toFormula, toFormula]
  generalize d.toList = ds at hperm hlength
  rcases ds with _ | ⟨l, _ | ⟨m, _ | ⟨k, ls⟩⟩⟩
  · rw [hperm.eq_nil]
    exact Formula.alike_refl _
  · rw [List.perm_singleton.1 hperm]
    exact Formula.alike_refl _
  · rcases List.perm_pair.1 hperm with hc | hc <;> rw [hc] <;>
      simp [Formula.join?, Connective.apply, Formula.alike, Formula.alike_refl]
  · simp at hlength

end Clause

/-! ## Inferences -/

namespace Rule

variable {kb kb' : FormulaSet} {aim : Option Formula} {f f' : Formula}

/-- Every conclusion of the first inferences is one of the second, in some spelling. -/
def Matched (rs rs' : List Inference) : Prop :=
  ∀ r ∈ rs, ∃ r' ∈ rs', r'.conclusion.alike r.conclusion = true

lemma matched_nil {rs : List Inference} : Matched [] rs := by
  simp [Matched]

lemma matched_ite {b b' : Bool} {r r' : Inference} (hb : b = true → b' = true)
    (hr : r'.conclusion.alike r.conclusion = true) :
    Matched (if b then [r] else []) (if b' then [r'] else []) := by
  cases b with
  | false => exact matched_nil
  | true => simpa [Matched, hb rfl] using hr

lemma Matched.mono {rs ts ts' : List Inference} (h : Matched rs ts) (hsub : ∀ r ∈ ts, r ∈ ts') :
    Matched rs ts' :=
  fun r hr => (h r hr).imp fun r' hr' => ⟨hsub r' hr'.1, hr'.2⟩

lemma Matched.append {rs rs' ts ts' : List Inference} (h : Matched rs rs') (ht : Matched ts ts') :
    Matched (rs ++ ts) (rs' ++ ts') := by
  intro r hr
  rcases List.mem_append.1 hr with hr | hr
  · exact h.mono (fun _ => List.mem_append_left _) r hr
  · exact ht.mono (fun _ => List.mem_append_right _) r hr

lemma Matched.append_swap {rs rs' ts ts' : List Inference} (h : Matched rs ts')
    (ht : Matched ts rs') : Matched (rs ++ ts) (rs' ++ ts') :=
  (h.append ht).mono fun r hr => by simpa [or_comm] using hr

lemma Matched.flatMap {draw draw' : Formula → List Inference} (h : Within kb kb')
    (hdraw : ∀ f f', f'.alike f = true → Matched (draw f) (draw' f')) :
    Matched (kb.toList.flatMap draw) (kb'.toList.flatMap draw') := by
  intro r hr
  obtain ⟨f, hf, hr⟩ := List.mem_flatMap.1 hr
  obtain ⟨f', hf', halike⟩ := h.exists_mem hf
  obtain ⟨r', hr', hconclusion⟩ := hdraw f f' halike r hr
  exact ⟨r', List.mem_flatMap.2 ⟨f', hf', hr'⟩, hconclusion⟩

lemma serves_of_alike (h : f'.alike f = true) (hf : serves aim f = true) :
    serves aim f' = true := by
  cases aim with
  | none => rfl
  | some goal =>
      rw [serves, Option.all_some] at hf ⊢
      exact (Formula.respects_alike goal f' f h).2 hf

/-- Something is known and something else serves: this is what most rules ask for. -/
lemma known_and_serves {p p' q q' : Formula} (h : Within kb kb') (hp : p'.alike p = true)
    (hq : q'.alike q = true) (hpq : (kb.contains p && serves aim q) = true) :
    (kb'.contains p' && serves aim q') = true := by
  rw [Bool.and_eq_true] at hpq ⊢
  exact ⟨h.contains hp hpq.1, serves_of_alike hq hpq.2⟩

lemma ponens_matched (h : Within kb kb') (hf : f'.alike f = true) :
    Matched (ponens kb aim f) (ponens kb' aim f') := by
  cases f with
  | impl p q =>
      obtain ⟨p', q', rfl, hp, hq⟩ := Formula.exists_of_alike_impl hf
      exact matched_ite (known_and_serves h hp hq) hq
  | _ => exact matched_nil

lemma tollens_matched (h : Within kb kb') (hf : f'.alike f = true) :
    Matched (tollens kb aim f) (tollens kb' aim f') := by
  cases f with
  | impl p q =>
      obtain ⟨p', q', rfl, hp, hq⟩ := Formula.exists_of_alike_impl hf
      have hp := Formula.opposite_alike hp
      have hq := Formula.opposite_alike hq
      exact matched_ite (known_and_serves h hq hp) hp
  | _ => exact matched_nil

/-- A side of a conjunction is a side of every spelling of it, but it may be the other one. -/
lemma sides_matched (hf : f'.alike f = true) :
    Matched (left aim f ++ right aim f) (left aim f' ++ right aim f') := by
  cases f with
  | conj p q =>
      obtain ⟨p', q', rfl, ⟨hp, hq⟩ | ⟨hp, hq⟩⟩ := Formula.exists_of_alike_conj hf
      · exact (matched_ite (serves_of_alike hp) hp).append (matched_ite (serves_of_alike hq) hq)
      · exact (matched_ite (serves_of_alike hq) hq).append_swap
          (matched_ite (serves_of_alike hp) hp)
  | _ => exact matched_nil

lemma syllogism_matched (h : Within kb kb') (hf : f'.alike f = true) :
    Matched (syllogism kb aim f) (syllogism kb' aim f') := by
  -- the opposite of one side is known, and the other side serves
  have hside : ∀ {p q p' q' : Formula}, p'.alike p = true → q'.alike q = true →
      (kb.contains p.opposite && serves aim q) = true →
        (kb'.contains p'.opposite && serves aim q') = true :=
    fun hp hq => known_and_serves h (Formula.opposite_alike hp) hq
  cases f with
  | disj p q =>
      obtain ⟨p', q', rfl, ⟨hp, hq⟩ | ⟨hp, hq⟩⟩ := Formula.exists_of_alike_disj hf
      · exact (matched_ite (hside hp hq) hq).append (matched_ite (hside hq hp) hp)
      · exact (matched_ite (hside hq hp) hp).append_swap (matched_ite (hside hp hq) hq)
  | _ => exact matched_nil

lemma contradiction_matched {rule : Rule} (h : Within kb kb') (hf : f'.alike f = true) :
    Matched (contradiction rule kb f) (contradiction rule kb' f') := by
  cases f with
  | neg p =>
      obtain ⟨p', rfl, hp⟩ := Formula.exists_of_alike_neg hf
      refine matched_ite (h.contains hp) ?_
      split_ifs
      · exact hf
      · exact (Formula.conj_alike hf hp).1
  | _ => exact matched_nil

lemma strip_matched (hf : f'.alike f = true) : Matched (strip aim f) (strip aim f') := by
  unfold strip
  split
  · obtain ⟨p', rfl, hp⟩ := Formula.exists_of_alike_neg hf
    obtain ⟨p'', rfl, hp⟩ := Formula.exists_of_alike_neg hp
    exact matched_ite (serves_of_alike hp) hp
  · exact matched_nil

lemma builds_matched {rule : Rule} {part goal : Formula} (h : Within kb kb') :
    Matched (builds rule kb part goal) (builds rule kb' part goal) :=
  matched_ite (h part) goal.alike_refl

lemma conjunctions_matched (h : Within kb kb') :
    Matched (conjunctions kb aim) (conjunctions kb' aim) := by
  unfold conjunctions
  split
  · refine matched_ite (fun hpq => ?_) (Formula.alike_refl _)
    rw [Bool.and_eq_true] at hpq ⊢
    exact hpq.imp (h _) (h _)
  · intro r hr
    simp only [List.mem_filterMap, Option.ite_none_right_eq_some, Option.some.injEq] at hr
    obtain ⟨⟨p, q⟩, hpq, hserves, rfl⟩ := hr
    obtain ⟨p', q', hp, hq, hpair⟩ := h.exists_pair hpq
    obtain ⟨hstraight, hcrossed⟩ := Formula.conj_alike hp hq
    rcases hpair with hpair | hpair
    · have hserves' := serves_of_alike hstraight hserves
      exact ⟨_, List.mem_filterMap.2 ⟨(p', q'), hpair, if_pos hserves'⟩, hstraight⟩
    · have hserves' := serves_of_alike hcrossed hserves
      exact ⟨_, List.mem_filterMap.2 ⟨(q', p'), hpair, if_pos hserves'⟩, hcrossed⟩

lemma mem_resolvents {first second : Formula × Clause} {r : Inference} :
    r ∈ resolvents aim first second ↔ ∃ x e, first.2.resolve? second.2 x = some e ∧
      e.isTautology = false ∧ serves aim e.toFormula = true ∧
      r = ⟨resolution, [first.1, second.1], e.toFormula, x⟩ := by
  simp only [resolvents, List.mem_filterMap]
  constructor
  · rintro ⟨x, -, hx⟩
    split at hx
    · rename_i e he
      simp only [Bool.and_eq_true, Bool.not_eq_true', Option.ite_none_right_eq_some,
        Option.some.injEq] at hx
      exact ⟨x, e, he, hx.1.1, hx.1.2, hx.2.symm⟩
    · simp at hx
  · rintro ⟨x, e, he, hreduced, hserves, rfl⟩
    obtain ⟨b, hc, hd, -⟩ := Clause.mem_resolve? he
    exact ⟨x, Clause.mem_clashes.2 ⟨b, hc, hd⟩, by simp [he, hreduced, hserves]⟩

lemma mem_resolution {r : Inference} :
    r ∈ resolution.apply kb aim ↔ ∃ f g ls ms, (f, g) ∈ pairs kb.toList ∧
      literals? f = some ls ∧ literals? g = some ms ∧
      r ∈ resolvents aim (f, .ofList ls) (g, .ofList ms) := by
  simp only [apply, clausal, List.mem_flatMap, Prod.exists]
  constructor
  · rintro ⟨f, c, g, d, hpair, hr⟩
    obtain ⟨f', g', hpair', hf, hg⟩ := mem_pairs_filterMap.1 hpair
    simp only [Option.map_eq_some_iff, Prod.mk.injEq] at hf hg
    obtain ⟨ls, hls, rfl, rfl⟩ := hf
    obtain ⟨ms, hms, rfl, rfl⟩ := hg
    exact ⟨f', g', ls, ms, hpair', hls, hms, hr⟩
  · rintro ⟨f, g, ls, ms, hpair, hls, hms, hr⟩
    exact ⟨f, .ofList ls, g, .ofList ms,
      mem_pairs_filterMap.2 ⟨f, g, hpair, by simp [hls], by simp [hms]⟩, hr⟩

/-- A resolvent of up to two literals is matched, whichever of the two clauses comes first. -/
lemma exists_resolution_alike {r : Inference} (h : Within kb kb') (hr : r ∈ resolution.apply kb aim)
    (hnarrow : ∀ ls ∈ literals? r.conclusion, ls.length ≤ 2) :
    ∃ r' ∈ resolution.apply kb' aim, r'.conclusion.alike r.conclusion = true := by
  obtain ⟨f, g, ls, ms, hpair, hls, hms, hresolvent⟩ := mem_resolution.1 hr
  obtain ⟨x, e, he, hreduced, hserves, rfl⟩ := mem_resolvents.1 hresolvent
  have hlength : e.toList.length ≤ 2 := by
    by_cases hempty : e.isEmpty = true
    · simp [List.eq_nil_iff_forall_not_mem.2 (Clause.isEmpty_iff.1 hempty)]
    · exact hnarrow e.toList (literals?_toFormula (by simpa using hempty))
  obtain ⟨f', g', hf, hg, hpair'⟩ := h.exists_pair hpair
  obtain ⟨ls', hls', hperm⟩ := exists_perm_of_alike hf hls
  obtain ⟨ms', hms', hperm'⟩ := exists_perm_of_alike hg hms
  -- a clause with the literals of the resolvent is drawn in its place
  have hdrawn : ∀ {f g : Formula} {ls ms : List Literal} {e' : Clause},
      (f, g) ∈ pairs kb'.toList → literals? f = some ls → literals? g = some ms →
      (Clause.ofList ls).resolve? (.ofList ms) x = some e' →
      (∀ l, l ∈ e'.toList ↔ l ∈ e.toList) →
      ∃ r' ∈ resolution.apply kb' aim, r'.conclusion.alike e.toFormula = true := by
    intro f g ls ms e' hpair hls hms he' hsame
    have halike := Clause.toFormula_alike hsame hlength
    refine ⟨⟨resolution, [f, g], e'.toFormula, x⟩, mem_resolution.2 ⟨f, g, ls, ms, hpair, hls, hms,
      mem_resolvents.2 ⟨x, e', he', ?_, serves_of_alike halike hserves, rfl⟩⟩, halike⟩
    rw [Clause.isTautology_eq_false_iff] at hreduced ⊢
    simpa only [hsame] using hreduced
  have hlits : ∀ l, l ∈ (Clause.ofList ls').toList ↔ l ∈ (Clause.ofList ls).toList := by
    simp [hperm.mem_iff]
  have hlits' : ∀ l, l ∈ (Clause.ofList ms').toList ↔ l ∈ (Clause.ofList ms).toList := by
    simp [hperm'.mem_iff]
  obtain ⟨⟨e', he', hsame⟩, ⟨e'', he'', hsame'⟩⟩ :=
    Clause.exists_resolve?_same hlits hlits' he hreduced
  rcases hpair' with hpair' | hpair'
  · exact hdrawn hpair' hls' hms' he' hsame
  · exact hdrawn hpair' hms' hls' he'' hsame'

/-! ### All rules together -/

lemma mem_allBut {rule : Rule} {excluded : List String} :
    rule ∈ allBut excluded ↔ rule.name ∉ excluded := by
  have hall : rule ∈ all := by cases rule <;> decide
  simp [allBut, hall]

/-- The two rules that take a conjunction apart are matched together. -/
lemma elims_matched (h : Within kb kb') :
    Matched (conjElimLeft.apply kb aim ++ conjElimRight.apply kb aim)
      (conjElimLeft.apply kb' aim ++ conjElimRight.apply kb' aim) := by
  have hmem : ∀ (kb : FormulaSet) (r : Inference),
      r ∈ conjElimLeft.apply kb aim ++ conjElimRight.apply kb aim ↔
        r ∈ kb.toList.flatMap fun f => left aim f ++ right aim f := by
    intro kb r
    simp only [apply, List.mem_append, List.mem_flatMap, and_or_left, exists_or]
  have hsides : Matched (kb.toList.flatMap fun f => left aim f ++ right aim f)
      (kb'.toList.flatMap fun f => left aim f ++ right aim f) :=
    .flatMap h fun f f' hf => sides_matched hf
  intro r hr
  exact hsides.mono (fun r' => (hmem kb' r').2) r ((hmem kb r).1 hr)

/-- Every rule but these and resolution is matched on its own. -/
lemma apply_matched {rule : Rule} (h : Within kb kb')
    (hside : ¬ (rule = conjElimLeft ∨ rule = conjElimRight)) (hother : rule ≠ resolution) :
    Matched (rule.apply kb aim) (rule.apply kb' aim) := by
  cases rule with
  | modusPonens | implElim => exact .flatMap h fun f f' hf => ponens_matched h hf
  | modusTollens => exact .flatMap h fun f f' hf => tollens_matched h hf
  | conjIntro => exact conjunctions_matched h
  | conjElimLeft | conjElimRight => simp at hside
  | disjElim => exact .flatMap h fun f f' hf => syllogism_matched h hf
  | negIntro | negElim => exact .flatMap h fun f f' hf => contradiction_matched h hf
  | doubleNegElim => exact .flatMap h fun f f' hf => strip_matched hf
  | resolution => exact absurd rfl hother
  | implIntro =>
      rcases aim with _ | goal
      · exact matched_nil
      · cases goal with
        | impl p q => exact builds_matched h
        | _ => exact matched_nil
  | disjIntroLeft | disjIntroRight =>
      rcases aim with _ | goal
      · exact matched_nil
      · cases goal with
        | disj p q => exact builds_matched h
        | _ => exact matched_nil

end Rule

/-- The conclusion is no matter of spelling: a resolvent has at most two literals, and where a side
is taken of a conjunction, both rules that do so are in use. -/
structure Inference.Firm (excluded : List String) (r : Inference) : Prop where
  narrow : r.rule = .resolution → ∀ ls ∈ Rule.literals? r.conclusion, ls.length ≤ 2
  sides : r.rule = .conjElimLeft ∨ r.rule = .conjElimRight →
    Rule.conjElimLeft.name ∉ excluded ∧ Rule.conjElimRight.name ∉ excluded

/-- **More knowledge allows every firm conclusion**, in whatever order and spelling it comes. -/
lemma Rule.exists_alike_of_firm {kb kb' : FormulaSet} {aim : Option Formula}
    {excluded : List String} {r : Inference} (h : Within kb kb')
    (hr : r ∈ applyAll kb aim excluded) (hfirm : r.Firm excluded) :
    ∃ r' ∈ applyAll kb' aim excluded, r'.conclusion.alike r.conclusion = true := by
  have hmem : ∀ {rule : Rule}, rule ∈ allBut excluded →
      ∀ r' ∈ rule.apply kb' aim, r' ∈ applyAll kb' aim excluded :=
    fun hrule r' hr' => List.mem_flatMap.2 ⟨_, hrule, hr'⟩
  obtain ⟨rule, hrule, hr⟩ := List.mem_flatMap.1 hr
  have hrecorded : r.rule = rule.recorded := (apply_drawnBy hr).recorded
  by_cases hside : rule = conjElimLeft ∨ rule = conjElimRight
  · have hboth := hfirm.sides (hside.imp (by rintro rfl; exact hrecorded)
      (by rintro rfl; exact hrecorded))
    rw [← mem_allBut, ← mem_allBut] at hboth
    have hdrawn : r ∈ conjElimLeft.apply kb aim ++ conjElimRight.apply kb aim := by
      rcases hside with rfl | rfl
      · exact List.mem_append_left _ hr
      · exact List.mem_append_right _ hr
    refine (elims_matched h).mono (fun r' hr' => ?_) r hdrawn
    rcases List.mem_append.1 hr' with hr' | hr'
    · exact hmem hboth.1 r' hr'
    · exact hmem hboth.2 r' hr'
  by_cases hresolution : rule = resolution
  · subst hresolution
    obtain ⟨r', hr', halike⟩ := exists_resolution_alike h hr (hfirm.narrow hrecorded)
    exact ⟨r', hmem hrule r' hr', halike⟩
  · exact (apply_matched h hside hresolution).mono (hmem hrule) r hr

/-! ## Rounds -/

section Round

variable {c : SearchConfig} {goal f : Formula} {s s' : ProofState} {rs : List Inference}
  {progress : Bool}

/-- While the goal is not known, the round reaches it as soon as an inference concludes it. -/
lemma reached_takeUp_iff (hnew : s.knowledge.contains goal = false) :
    (takeUp goal rs s progress).reached = true ↔ ∃ r ∈ rs, r.conclusion.alike goal = true := by
  fun_induction takeUp goal rs s progress with
  | case1 => simp
  | case2 r rs s progress hknown ih =>
      have hother : r.conclusion.alike goal = false := by
        by_contra halike
        rw [FormulaSet.contains_congr (by simpa using halike), hnew] at hknown
        simp at hknown
      simp [ih hnew, hother]
  | case3 r rs s progress _ s' hgoal => simp [hgoal]
  | case4 r rs s progress _ s' hgoal ih =>
      have hstill : s'.knowledge.contains goal = false := by
        rw [← Bool.not_eq_true] at hnew ⊢
        exact fun h => (FormulaSet.contains_insert_iff.1 h).elim hnew hgoal
      simp [ih hstill, hgoal]

lemma takeUp_of_known (h : ∀ r ∈ rs, s.knowledge.contains r.conclusion = true) :
    takeUp goal rs s progress = ⟨s, progress, false⟩ := by
  induction rs with
  | nil => rfl
  | cons r rs ih =>
      rw [List.forall_mem_cons] at h
      rw [takeUp, if_pos h.1, ih h.2]

/-- The inferences that a round of forward search looks at. -/
def SearchConfig.taken (c : SearchConfig) (goal : Formula) (s : ProofState) : List Inference :=
  takeTo c.maxBranching (c.ranked goal (Rule.applyAll s.knowledge none c.excluded))

/-- A round of forward search. -/
def SearchConfig.round (c : SearchConfig) (goal : Formula) (s : ProofState) : Round :=
  takeUp goal (c.taken goal s) s false

lemma mem_applyAll_of_mem_taken {r : Inference} (hr : r ∈ c.taken goal s) :
    r ∈ Rule.applyAll s.knowledge none c.excluded :=
  SearchConfig.mem_ranked.1 (mem_of_mem_takeTo hr)

lemma contains_round (h : s.knowledge.contains f = true) :
    (c.round goal s).state.knowledge.contains f = true := by
  obtain ⟨g, hg, hgf⟩ := OrderedSet.contains_iff.1 h
  exact OrderedSet.contains_iff.2 ⟨g, mem_takeUp_of_mem hg, hgf⟩

/-- A round knows nothing new but what it took up. -/
lemma contains_or_exists_of_contains_round
    (h : (c.round goal s).state.knowledge.contains f = true) :
    s.knowledge.contains f = true ∨ ∃ r ∈ c.taken goal s, r.conclusion.alike f = true := by
  obtain ⟨g, hg, hgf⟩ := OrderedSet.contains_iff.1 h
  rcases mem_or_of_mem_takeUp hg with hg | ⟨r, hr, rfl⟩
  · exact Or.inl (OrderedSet.contains_iff.2 ⟨g, hg, hgf⟩)
  · exact Or.inr ⟨r, hr, hgf⟩

/-- What inferences hand on is handed on by a round. -/
lemma round_forall {I : Formula → Prop} (hI : HandedOn c.excluded I)
    (hs : ∀ f ∈ s.knowledge.toList, I f) :
    ∀ f ∈ (c.round goal s).state.knowledge.toList, I f := by
  intro f hf
  rcases mem_or_of_mem_takeUp hf with hf | ⟨r, hr, rfl⟩
  · exact hs f hf
  · exact hI _ hs r (mem_applyAll_of_mem_taken hr)

/-- Inferences that are in order are not moved. -/
lemma SearchConfig.ranked_of_pairwise
    (h : rs.Pairwise fun a b => (c.score goal a).lt (c.score goal b) = false) :
    c.ranked goal rs = rs := by
  rw [ranked, List.mergeSort_of_pairwise]
  · simp [List.map_map, Function.comp_def]
  · rw [List.pairwise_map]
    exact h.imp fun h => by simp [h]

end Round

end AnnealProver
