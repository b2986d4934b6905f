import Mathlib.Data.List.Forall2
import AnnealProver.Proofs.Likeness
import AnnealProver.Proofs.Search

/-!
# Searches write derivations

The steps that a search leaves behind, whether or not it reached the goal, are a **derivation**
(`Derivation`): they are numbered from one, no two of their formulas are alike, the first ones are
the axioms, and every other one **follows** from steps before it (`Step.Follows`).

Premises are looked up among the steps, from the latest back, and one that is not found would be
left out without a word.  None is: what a search knows and what its steps say are the same formulas
in the same order (`ProofState.Logged`), and the premises of an inference are known.

**Names.**  A rule that is excluded is not used, but its name may still appear: eliminating an
implication is handed on to modus ponens and recorded as such (`Rule.recorded`).
-/

namespace AnnealProver

/-! ## What rules record -/

/-- The rule under whose name the inferences of a rule are recorded. -/
def Rule.recorded : Rule → Rule
  | implElim => modusPonens
  | rule => rule

/-- The inference has premises, and the name that the rule records. -/
structure Inference.DrawnBy (rule : Rule) (r : Inference) : Prop where
  recorded : r.rule = rule.recorded
  premises : r.premises ≠ []

namespace Rule

variable {kb : FormulaSet} {goal : Option Formula} {r : Inference}

lemma drawnBy_of_mem_flatMap {rule : Rule} {draw : Formula → List Inference}
    (hdraw : ∀ f, ∀ r ∈ draw f, r.DrawnBy rule) (h : r ∈ kb.toList.flatMap draw) :
    r.DrawnBy rule := by
  obtain ⟨f, -, hr⟩ := List.mem_flatMap.1 h
  exact hdraw f r hr

lemma conjunctions_drawnBy (h : r ∈ conjunctions kb goal) : r.DrawnBy conjIntro := by
  unfold conjunctions at h
  split at h
  · simp only [List.mem_ite_nil_right, List.mem_singleton] at h
    obtain ⟨-, rfl⟩ := h
    exact ⟨rfl, by simp⟩
  · simp only [List.mem_filterMap, Option.ite_none_right_eq_some, Option.some.injEq] at h
    obtain ⟨pq, -, -, rfl⟩ := h
    exact ⟨rfl, by simp⟩

lemma resolvents_drawnBy {first second : Formula × Clause}
    (h : r ∈ resolvents goal first second) : r.DrawnBy resolution := by
  simp only [resolvents, List.mem_filterMap] at h
  obtain ⟨name, -, hname⟩ := h
  split at hname
  · simp only [Option.ite_none_right_eq_some, Option.some.injEq] at hname
    obtain ⟨-, rfl⟩ := hname
    exact ⟨rfl, by simp⟩
  · simp at hname

lemma apply_drawnBy {rule : Rule} (h : r ∈ rule.apply kb goal) : r.DrawnBy rule := by
  cases rule with
  -- two rules with one body, which always says modus ponens
  | modusPonens | implElim =>
      refine drawnBy_of_mem_flatMap (fun f r hr => ?_) h
      cases f <;> grind [ponens, Inference.DrawnBy, recorded]
  | modusTollens =>
      refine drawnBy_of_mem_flatMap (fun f r hr => ?_) h
      cases f <;> grind [tollens, Inference.DrawnBy, recorded]
  | conjIntro => exact conjunctions_drawnBy h
  | conjElimLeft =>
      refine drawnBy_of_mem_flatMap (fun f r hr => ?_) h
      cases f <;> grind [left, Inference.DrawnBy, recorded]
  | conjElimRight =>
      refine drawnBy_of_mem_flatMap (fun f r hr => ?_) h
      cases f <;> grind [right, Inference.DrawnBy, recorded]
  | disjElim =>
      refine drawnBy_of_mem_flatMap (fun f r hr => ?_) h
      cases f <;> grind [syllogism, Inference.DrawnBy, recorded]
  | negIntro | negElim =>
      refine drawnBy_of_mem_flatMap (fun f r hr => ?_) h
      cases f <;> grind [contradiction, Inference.DrawnBy, recorded]
  | doubleNegElim =>
      refine drawnBy_of_mem_flatMap (fun f r hr => ?_) h
      unfold strip at hr
      grind [Inference.DrawnBy, recorded]
  | resolution =>
      obtain ⟨⟨c, d⟩, -, hr⟩ := List.mem_flatMap.1 h
      exact resolvents_drawnBy hr
  | implIntro | disjIntroLeft | disjIntroRight =>
      unfold apply at h
      split at h <;> simp only [reduceCtorEq, List.not_mem_nil] at *
      grind [builds, Inference.DrawnBy, recorded]

/-- Only by way of eliminating an implication can the name of an excluded rule be recorded. -/
lemma recorded_mem_allBut {rule : Rule} {excluded : List String} (h : rule ∈ allBut excluded)
    (hpair : modusPonens.name ∈ excluded → implElim.name ∈ excluded) :
    rule.recorded ∈ allBut excluded := by
  have hkept : rule.name ∉ excluded := by simpa [allBut] using (List.mem_filter.1 h).2
  by_cases heq : rule = implElim
  · subst heq
    have hponens : modusPonens.name ∉ excluded := fun hmem => hkept (hpair hmem)
    exact List.mem_filter.2 ⟨by simp [recorded, all], by simpa [recorded] using hponens⟩
  · have hself : rule.recorded = rule := by
      cases rule with
      | implElim => exact absurd rfl heq
      | _ => rfl
    rwa [hself]

end Rule

/-! ## Derivations -/

/-- The formulas of the steps with the given numbers. -/
def Step.cited (steps : List Step) (numbers : List Int) : List Formula :=
  (steps.filter fun s => numbers.contains (s.number : Int)).map (·.formula)

/-- The step records an inference of the rule, with earlier steps for the premises. -/
structure Step.Records (rule : Rule) (r : Inference) (earlier : List Step) (step : Step) :
    Prop where
  rule : step.rule = rule.recorded.name
  formula : r.conclusion.alike step.formula = true
  premises_ne : step.premises ≠ []
  /-- There is one number for each premise. -/
  premises : List.Forall₂ (fun p n => n < (step.number : Int) ∧
    ∃ s ∈ earlier, (s.number : Int) = n ∧ s.formula.alike p = true) r.premises step.premises
  sound : Entails (cited earlier step.premises) step.formula

/-- A rule that is not excluded draws the step from formulas of the earlier steps. -/
def Step.Follows (c : SearchConfig) (earlier : List Step) (step : Step) : Prop :=
  ∃ rule ∈ Rule.allBut c.excluded, ∃ (kb : FormulaSet) (aim : Option Formula),
    (∀ f ∈ kb.toList, ∃ s ∈ earlier, s.formula = f) ∧
      ∃ r ∈ rule.apply kb aim, step.Records rule r earlier

/-- The steps begin with the axioms, each once up to likeness, and go on with steps that follow from
the ones before them. -/
structure Derivation (c : SearchConfig) (axioms : List Formula) (steps : List Step) : Prop where
  numbered : ∀ i step, steps[i]? = some step → step.number = i + 1
  distinct : steps.Pairwise fun s t => s.formula.alike t.formula = false
  begins : ∃ given : List Formula, given.Sublist axioms ∧
    (∀ f ∈ axioms, f.isAmong given = true) ∧
    given.mapIdx ProofState.axiomStep <+: steps ∧
    ∀ i step, given.length ≤ i → steps[i]? = some step → step.Follows c (steps.take i)

lemma getElem?_concat_cases {α : Type} {as : List α} {a b : α} {i : ℕ}
    (h : (as ++ [a])[i]? = some b) :
    (i < as.length ∧ as[i]? = some b) ∨ (i = as.length ∧ a = b) := by
  rw [List.getElem?_append] at h
  split_ifs at h with hi
  · exact Or.inl ⟨hi, h⟩
  · simp only [List.getElem?_singleton, Option.ite_none_right_eq_some, Option.some.injEq] at h
    exact Or.inr ⟨by omega, h.2⟩

/-- A derivation goes on with any new formula that follows. -/
lemma Derivation.concat {c : SearchConfig} {axioms : List Formula} {steps : List Step} {step : Step}
    (h : Derivation c axioms steps) (hnumber : step.number = steps.length + 1)
    (hnew : ∀ s ∈ steps, s.formula.alike step.formula = false) (hstep : step.Follows c steps) :
    Derivation c axioms (steps ++ [step]) where
  numbered := by
    intro i t ht
    rcases getElem?_concat_cases ht with ⟨-, ht⟩ | ⟨rfl, rfl⟩
    · exact h.numbered i t ht
    · exact hnumber
  distinct := by
    refine List.pairwise_append.2 ⟨h.distinct, List.pairwise_singleton _ _, fun s hs t ht => ?_⟩
    rw [List.mem_singleton.1 ht]
    exact hnew s hs
  begins := by
    obtain ⟨given, hsublist, hall, hprefix, hlater⟩ := h.begins
    refine ⟨given, hsublist, hall, hprefix.trans (List.prefix_append _ _), fun i t hi ht => ?_⟩
    rcases getElem?_concat_cases ht with ⟨hlt, ht⟩ | ⟨rfl, rfl⟩
    · rw [List.take_append_of_le_length hlt.le]
      exact hlater i t hi ht
    · rw [List.take_left]
      exact hstep

lemma axiomSteps_formulas (fs : List Formula) :
    (fs.mapIdx ProofState.axiomStep).map (·.formula) = fs := by
  refine List.ext_getElem? fun i => ?_
  simp [ProofState.axiomStep, Function.comp_def]

lemma derivation_axioms {c : SearchConfig} {axioms : List Formula} :
    Derivation c axioms
      ((OrderedSet.ofList axioms : FormulaSet).toList.mapIdx ProofState.axiomStep) where
  numbered := by
    intro i step hstep
    rw [List.getElem?_mapIdx] at hstep
    obtain ⟨f, -, rfl⟩ := Option.map_eq_some_iff.1 hstep
    rfl
  distinct := by
    rw [← List.pairwise_map (f := Step.formula) (R := fun f g => f.alike g = false),
      axiomSteps_formulas]
    exact (OrderedSet.ofList axioms).distinct
  begins := by
    refine ⟨(OrderedSet.ofList axioms : FormulaSet).toList, OrderedSet.toList_insertAll_sublist,
      fun f hf => ?_, List.prefix_rfl, fun i step hi hstep => ?_⟩
    · have hexists : ∃ g ∈ (OrderedSet.ofList axioms : FormulaSet).toList, g.alike f = true :=
        (OrderedSet.exists_ofList (Formula.respects_alike f)).2 ⟨f, hf, f.alike_refl⟩
      simpa [Formula.isAmong] using hexists
    · have hlt := (List.getElem?_eq_some_iff.1 hstep).1
      rw [List.length_mapIdx] at hlt
      omega

/-! ## What is known is what the steps say -/

/-- The steps are a derivation of what the state knows. -/
structure ProofState.Logged (c : SearchConfig) (axioms : List Formula) (s : ProofState) : Prop where
  known : s.steps.map (·.formula) = s.knowledge.toList
  derivation : Derivation c axioms s.steps

variable {c : SearchConfig} {axioms : List Formula} {goal : Formula} {s t : ProofState}

/-- Formulas that are known are those of some step, up to likeness. -/
lemma ProofState.Logged.contains_iff (hs : s.Logged c axioms) {f : Formula} :
    s.knowledge.contains f = true ↔ ∃ step ∈ s.steps, step.formula.alike f = true := by
  rw [OrderedSet.contains_iff, ← hs.known]
  simp

lemma ProofState.Logged.exists_findStep? (hs : s.Logged c axioms) {f : Formula}
    (h : s.knowledge.contains f = true) :
    ∃ step ∈ s.steps, s.findStep? f = some step ∧ step.formula.alike f = true := by
  obtain ⟨step, hstep, halike⟩ := hs.contains_iff.1 h
  obtain ⟨found, hfound⟩ : ∃ found, s.findStep? f = some found := by
    rw [← Option.isSome_iff_exists, findStep?, List.find?_isSome]
    exact ⟨step, List.mem_reverse.2 hstep, halike⟩
  have hmem : found ∈ s.steps := List.mem_reverse.1 (List.mem_of_find?_eq_some hfound)
  have halike := List.find?_some (p := fun step : Step => step.formula.alike f) hfound
  exact ⟨found, hmem, hfound, halike⟩

/-- Every premise that is known is given the number of a step, so none is left out. -/
lemma ProofState.Logged.forall₂_premiseNumbers (hs : s.Logged c axioms) {premises : List Formula}
    (h : ∀ p ∈ premises, s.knowledge.contains p = true) :
    List.Forall₂ (fun p n => n < (s.steps.length + 1 : Int) ∧
      ∃ step ∈ s.steps, (step.number : Int) = n ∧ step.formula.alike p = true)
      premises (s.premiseNumbers premises) := by
  induction premises with
  | nil => exact .nil
  | cons p ps ih =>
      obtain ⟨step, hstep, hfound, halike⟩ := hs.exists_findStep? (h p List.mem_cons_self)
      have hnumbers : s.premiseNumbers (p :: ps) = (step.number : Int) :: s.premiseNumbers ps := by
        simp [premiseNumbers, hfound]
      have hsmall : (step.number : Int) < s.steps.length + 1 := by
        obtain ⟨i, hi⟩ := List.mem_iff_getElem?.1 hstep
        have hnumber := hs.derivation.numbered i step hi
        have hlength := (List.getElem?_eq_some_iff.1 hi).1
        omega
      rw [hnumbers]
      exact .cons ⟨hsmall, step, hstep, rfl, halike⟩
        (ih fun q hq => h q (List.mem_cons_of_mem _ hq))

lemma exists_mem_of_forall₂ {α β : Type} {R : α → β → Prop} {as : List α} {bs : List β}
    (h : List.Forall₂ R as bs) {a : α} (ha : a ∈ as) : ∃ b ∈ bs, R a b := by
  induction h with
  | nil => simp at ha
  | @cons x y _ _ hxy _ ih =>
      rcases List.mem_cons.1 ha with rfl | ha
      · exact ⟨y, List.mem_cons_self, hxy⟩
      · obtain ⟨b, hb, hab⟩ := ih ha
        exact ⟨b, List.mem_cons_of_mem _ hb, hab⟩

/-- Steps with the numbers of the premises have formulas that are as true as the premises. -/
lemma Entails.of_cited {steps : List Step} {premises : List Formula} {numbers : List Int}
    {f : Formula} {P : Int → Prop}
    (hf : Entails premises f)
    (h : List.Forall₂ (fun p n => P n ∧
      ∃ step ∈ steps, (step.number : Int) = n ∧ step.formula.alike p = true) premises numbers) :
    Entails (Step.cited steps numbers) f := by
  refine Entails.trans (fun p hp v hv => ?_) hf
  obtain ⟨n, hn, -, step, hstep, rfl, halike⟩ := exists_mem_of_forall₂ h hp
  have hcited : step.formula ∈ Step.cited steps numbers :=
    List.mem_map_of_mem (List.mem_filter.2 ⟨hstep, by simpa using hn⟩)
  rw [← Formula.eval_eq_of_alike halike]
  exact hv _ hcited

/-! ## Steps and runs -/

/-- The step that records an inference. -/
def ProofState.stepOf (s : ProofState) (r : Inference) (f : Formula) : Step :=
  { number := s.steps.length + 1, formula := f, rule := r.rule.name,
    premises := s.premiseNumbers r.premises, justification := r.description,
    level := s.assumptions.length }

lemma ProofState.record_steps (r : Inference) (f : Formula) :
    (s.record r f).steps = s.steps ++ [s.stepOf r f] := rfl

/-- The step of an inference from what is known follows from the steps so far. -/
lemma ProofState.Logged.stepOf_follows (hs : s.Logged c axioms) {rule : Rule} {kb : FormulaSet}
    {aim : Option Formula} {r : Inference} {f : Formula}
    (hrule : rule ∈ Rule.allBut c.excluded) (hr : r ∈ rule.apply kb aim)
    (hkb : ∀ g ∈ kb.toList, g ∈ s.knowledge.toList) (hspelling : r.conclusion.alike f = true) :
    (s.stepOf r f).Follows c s.steps := by
  have hdrawn := Rule.apply_drawnBy hr
  have hjustified := Rule.apply_justified hr
  have hknown : ∀ p ∈ r.premises, s.knowledge.contains p = true := by
    intro p hp
    obtain ⟨g, hg, hgp⟩ := OrderedSet.contains_iff.1 (hjustified.known p hp)
    exact OrderedSet.contains_iff.2 ⟨g, hkb g hg, hgp⟩
  have hcites := hs.forall₂_premiseNumbers hknown
  refine ⟨rule, hrule, kb, aim, fun g hg => ?_, r, hr, ?_⟩
  · have hmem := hkb g hg
    rw [← hs.known] at hmem
    obtain ⟨step, hstep, heq⟩ := List.mem_map.1 hmem
    exact ⟨step, hstep, heq⟩
  · have hnonempty := List.length_pos_of_ne_nil hdrawn.premises
    have hsound : Entails r.premises f := fun v hv => by
      rw [← Formula.eval_eq_of_alike hspelling]
      exact hjustified.sound v hv
    exact ⟨congrArg Rule.name hdrawn.recorded, hspelling,
      List.ne_nil_of_length_pos (hcites.length_eq ▸ hnonempty), hcites, hsound.of_cited hcites⟩

/-- At the beginning there is one step for each axiom, and nothing else is known. -/
lemma logged_start (axioms : List Formula) (goal : Formula) :
    (ProofState.start axioms goal).Logged c axioms where
  known := by
    have hknowledge : (ProofState.start axioms goal).knowledge.toList =
        (OrderedSet.ofList axioms : FormulaSet).toList :=
      OrderedSet.toList_insertAll_of_distinct (OrderedSet.ofList axioms).distinct
    rw [hknowledge]
    exact axiomSteps_formulas _
  derivation := derivation_axioms

lemma SearchStep.logged (h : SearchStep c s t) (hs : s.Logged c axioms) : t.Logged c axioms := by
  cases h with
  | judge status => exact ⟨hs.known, hs.derivation⟩
  | @record rule kb aim r conclusion hrule hr hkb hspelling hnew =>
      refine ⟨?_, ?_⟩
      · rw [ProofState.record_steps, List.map_append, hs.known]
        have hinsert := OrderedSet.toList_insert s.knowledge conclusion
        rw [hnew] at hinsert
        exact hinsert.symm
      · rw [ProofState.record_steps]
        refine hs.derivation.concat rfl (fun step hstep => ?_)
          (hs.stepOf_follows hrule hr hkb hspelling)
        -- a step with a formula like the conclusion would mean that it was known
        rw [← Bool.not_eq_true]
        intro halike
        have hknown : s.knowledge.contains conclusion = true :=
          hs.contains_iff.2 ⟨step, hstep, halike⟩
        rw [hnew] at hknown
        cases hknown

lemma SearchRun.logged (h : SearchRun c s t) (hs : s.Logged c axioms) : t.Logged c axioms := by
  induction h with
  | refl => exact hs
  | tail _ hstep ih => exact hstep.logged ih

/-! ## The whole search -/

/-- In a derivation the names are those of rules that are not excluded, unless modus ponens is
excluded and eliminating an implication is not. -/
lemma Derivation.rule_mem {steps : List Step} (h : Derivation c axioms steps)
    (hpair : Rule.modusPonens.name ∈ c.excluded → Rule.implElim.name ∈ c.excluded) :
    ∀ step ∈ steps, step.rule = ProofState.axiomRule ∨
      ∃ rule ∈ Rule.allBut c.excluded, step.rule = rule.name := by
  intro step hstep
  obtain ⟨given, -, -, ⟨later, rfl⟩, hlater⟩ := h.begins
  obtain ⟨i, hi⟩ := List.mem_iff_getElem?.1 hstep
  rcases Nat.lt_or_ge i given.length with hlt | hge
  · rw [List.getElem?_append_left (by simpa using hlt), List.getElem?_mapIdx] at hi
    obtain ⟨f, -, rfl⟩ := Option.map_eq_some_iff.1 hi
    exact Or.inl rfl
  · obtain ⟨rule, hrule, -, -, -, r, -, hrecords⟩ := hlater i step hge hi
    exact Or.inr ⟨rule.recorded, Rule.recorded_mem_allBut hrule hpair, hrecords.rule⟩

/-- **Searches write derivations**, with any strategy and any configuration, whether or not they
reach the goal; and one that claims success has a step with the goal. -/
theorem prove_writes_derivation (axioms : List Formula) (goal : Formula) (c : SearchConfig) :
    Derivation c axioms (prove axioms goal c).state.steps ∧
    ((prove axioms goal c).success = true →
      ∃ step ∈ (prove axioms goal c).state.steps, step.formula.alike goal = true) ∧
    ((Rule.modusPonens.name ∈ c.excluded → Rule.implElim.name ∈ c.excluded) →
      ∀ step ∈ (prove axioms goal c).state.steps, step.rule = ProofState.axiomRule ∨
        ∃ rule ∈ Rule.allBut c.excluded, step.rule = rule.name) := by
  have honest := prove_honest axioms goal c
  have hlogged := honest.run.logged (logged_start axioms goal)
  exact ⟨hlogged.derivation, fun hsuccess => hlogged.contains_iff.1 (honest.found hsuccess),
    hlogged.derivation.rule_mem⟩

/-- With modus ponens excluded, eliminating an implication still records it. -/
theorem prove_records_excluded_name :
    ¬ ∀ (axioms : List Formula) (goal : Formula) (c : SearchConfig),
      ∀ step ∈ (prove axioms goal c).state.steps, step.rule = ProofState.axiomRule ∨
        ∃ rule ∈ Rule.allBut c.excluded, step.rule = rule.name := by
  intro h
  let c : SearchConfig :=
    { strategy := .backward, checksSemantics := false, excluded := ["modus_ponens"] }
  have hall := h [.var "P", .impl (.var "P") (.var "Q")] (.var "Q") c
  have hlast : "modus_ponens" ∈
      (prove [.var "P", .impl (.var "P") (.var "Q")] (.var "Q") c).state.steps.map (·.rule) := by
    decide
  obtain ⟨step, hstep, hrule⟩ := List.mem_map.1 hlast
  have := hall step hstep
  rw [hrule] at this
  revert this
  decide

end AnnealProver
