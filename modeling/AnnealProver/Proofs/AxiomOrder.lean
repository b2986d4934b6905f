import AnnealProver.Proofs.Saturation

/-!
# What the order of the axioms decides

A **proof in stages** (`SearchConfig.IsProof`) does not look at any order: each stage lists formulas
that can be concluded, in some order and spelling, from the axioms and the stages before it.  Every
forward search that succeeds leaves such a proof, a stage for each round (`exists_staged`).  So
where there is none, no order of the axioms helps.

Where there is one, two things may keep a search from finding it.  The first is spelling: a formula
can be concluded in one order and only a similar one in another.  This does not happen to firm
inferences (`Rule.exists_alike_of_firm`).  The second is the width of a round: what a stage asks for
can be concluded, but it is ranked too low and cut off.  A search **spares** a proof if this happens
nowhere, and it finds every proof by firm inferences that it spares (`contains_after_of_spares`).

To be cut off is not just to have to wait.  What is known keeps its place in the ranking, so that
the same inferences may be cut off in every round.  But a proof by modus ponens is spared in every
order if no more arrows are written in the axioms than a round has places (`spares_of_ponens`): the
rule is applied first, and it draws no more inferences than there are arrows.
-/

namespace AnnealProver

open FormulaSet (Within Same)

namespace FormulaSet

variable {kb kb' : FormulaSet} {f : Formula} {fs : List Formula}

lemma contains_insertAll_iff : (kb.insertAll fs).contains f = true ↔
    kb.contains f = true ∨ ∃ g ∈ fs, g.alike f = true := by
  induction fs generalizing kb with
  | nil => simp [OrderedSet.insertAll]
  | cons g fs ih =>
      have hstep : kb.insertAll (g :: fs) = (kb.insert g).insertAll fs := rfl
      rw [hstep, ih, contains_insert_iff, or_assoc]
      simp only [List.mem_cons, exists_eq_or_imp]

lemma Within.insertAll (h : Within kb kb') (hfs : ∀ f ∈ fs, kb'.contains f = true) :
    Within (kb.insertAll fs) kb' := by
  intro f hf
  rcases contains_insertAll_iff.1 hf with hf | ⟨g, hg, hgf⟩
  · exact h f hf
  · rw [← contains_congr hgf]
    exact hfs g hg

end FormulaSet

/-! ## Proofs in stages -/

namespace SearchConfig

variable (c : SearchConfig) (goal : Formula) (P : Inference → Prop)

/-- An inference of the given kind concludes the formula, in some order and spelling of what is
known. -/
def Allows (kb : FormulaSet) (f : Formula) : Prop :=
  ∃ kb', Same kb kb' ∧ ∃ r ∈ Rule.applyAll kb' none c.excluded, P r ∧ r.conclusion.alike f = true

/-- Each stage can be concluded from what is known and the stages before it, and with the last one
the goal is known. -/
def Staged : FormulaSet → List (List Formula) → Prop
  | kb, [] => kb.contains goal = true
  | kb, stage :: stages => (∀ f ∈ stage, c.Allows P kb f) ∧ Staged (kb.insertAll stage) stages

/-- A proof of the goal from the axioms by inferences of the given kind, with no more stages than
the search has rounds. -/
structure IsProof (axioms : List Formula) (stages : List (List Formula)) : Prop where
  inTime : stages.length ≤ c.maxSteps.toNat
  staged : c.Staged goal P (.ofList axioms) stages

/-- Nothing that the stages ask for is cut off: as long as the goal is not known, each round knows
all of its stage that can be concluded when it begins. -/
def Spares : ProofState → List (List Formula) → Prop
  | _, [] => True
  | s, stage :: stages =>
      (c.round goal s).state.knowledge.contains goal = true ∨
        ((∀ f ∈ stage,
            (∃ r ∈ Rule.applyAll s.knowledge none c.excluded, r.conclusion.alike f = true) →
              (c.round goal s).state.knowledge.contains f = true) ∧
          Spares (c.round goal s).state stages)

end SearchConfig

variable {c : SearchConfig} {goal : Formula} {s : ProofState} {kb : FormulaSet}
  {stages : List (List Formula)} {axioms order : List Formula} {r : Inference}
  {n m rounds : ℕ}

lemma SearchConfig.Staged.mono {P Q : Inference → Prop} (hPQ : ∀ r, P r → Q r)
    (h : c.Staged goal P kb stages) : c.Staged goal Q kb stages := by
  induction stages generalizing kb with
  | nil => exact h
  | cons stage stages ih =>
      refine ⟨fun f hf => ?_, ih h.2⟩
      obtain ⟨kb', hsame, r, hr, hP, hrf⟩ := h.1 f hf
      exact ⟨kb', hsame, r, hr, hPQ r hP, hrf⟩

lemma SearchConfig.IsProof.mono {P Q : Inference → Prop} (hPQ : ∀ r, P r → Q r)
    (h : c.IsProof goal P axioms stages) : c.IsProof goal Q axioms stages :=
  ⟨h.inTime, h.staged.mono hPQ⟩

/-! ## Rounds and stages -/

/-- What a round adds to what is known. -/
def SearchConfig.gained (c : SearchConfig) (goal : Formula) (s : ProofState) : List Formula :=
  (c.round goal s).state.knowledge.toList.filter fun f => !s.knowledge.contains f

/-- What a round adds was concluded in it. -/
lemma exists_taken_of_mem_gained {f : Formula} (hf : f ∈ c.gained goal s) :
    ∃ r ∈ c.taken goal s, r.conclusion.alike f = true := by
  obtain ⟨hf, hnew⟩ := List.mem_filter.1 hf
  rcases contains_or_exists_of_contains_round (FormulaSet.contains_of_mem hf) with hknown | htaken
  · simp [hknown] at hnew
  · exact htaken

lemma same_insertAll_gained (h : Same kb s.knowledge) :
    Same (kb.insertAll (c.gained goal s)) (c.round goal s).state.knowledge := by
  intro f
  rw [Bool.eq_iff_iff, FormulaSet.contains_insertAll_iff, h f]
  constructor
  · rintro (hf | ⟨g, hg, hgf⟩)
    · exact contains_round hf
    · exact OrderedSet.contains_iff.2 ⟨g, (List.mem_filter.1 hg).1, hgf⟩
  · intro hf
    by_cases hknown : s.knowledge.contains f = true
    · exact Or.inl hknown
    · obtain ⟨g, hg, hgf⟩ := OrderedSet.contains_iff.1 hf
      rw [← FormulaSet.contains_congr hgf] at hknown
      exact Or.inr ⟨g, List.mem_filter.2 ⟨hg, by simpa using hknown⟩, hgf⟩

lemma within_round (h : Within kb s.knowledge) : Within kb (c.round goal s).state.knowledge :=
  fun f hf => contains_round (h f hf)

/-- Rounds that bring the goal are the stages of a proof. -/
lemma exists_staged (hkb : Same kb s.knowledge)
    (hgoal : (c.after goal n s).knowledge.contains goal = true) :
    ∃ stages, stages.length = n ∧ c.Staged goal (fun _ => True) kb stages := by
  induction n generalizing s kb with
  | zero => exact ⟨[], rfl, (hkb goal).trans hgoal⟩
  | succ n ih =>
      rw [after_succ] at hgoal
      obtain ⟨stages, hlength, hstaged⟩ := ih (same_insertAll_gained hkb) hgoal
      refine ⟨c.gained goal s :: stages, by simp [hlength], fun f hf => ?_, hstaged⟩
      obtain ⟨r, hr, hrf⟩ := exists_taken_of_mem_gained hf
      exact ⟨s.knowledge, hkb, r, mem_applyAll_of_mem_taken hr, trivial, hrf⟩

/-- **A proof by firm inferences that is spared is found**, stage by stage: what is known after a
round includes its stage, in whatever order and spelling. -/
lemma contains_after_of_spares (hkb : Within kb s.knowledge)
    (hstaged : c.Staged goal (·.Firm c.excluded) kb stages) (hspares : c.Spares goal s stages) :
    (c.after goal stages.length s).knowledge.contains goal = true := by
  induction stages generalizing kb s with
  | nil => exact hkb goal hstaged
  | cons stage stages ih =>
      rw [List.length_cons, after_succ]
      rcases hspares with hdone | ⟨hspared, hspares⟩
      · exact contains_after hdone
      · refine ih ((within_round hkb).insertAll fun f hf => ?_) hstaged.2 hspares
        obtain ⟨kb', hsame, r, hr, hfirm, hrf⟩ := hstaged.1 f hf
        obtain ⟨r', hr', halike⟩ :=
          Rule.exists_alike_of_firm (hsame.symm.within.trans hkb) hr hfirm
        exact hspared f hf ⟨r', hr', Formula.alike_trans halike hrf⟩

/-! ## Searches -/

lemma contains_after_of_le (hnm : n ≤ m) (h : (c.after goal n s).knowledge.contains goal = true) :
    (c.after goal m s).knowledge.contains goal = true := by
  obtain ⟨k, rfl⟩ := Nat.exists_eq_add_of_le' hnm
  rw [SearchConfig.after, Function.iterate_add_apply]
  exact contains_after h

/-- Giving up loses nothing: a search finds what its rounds would bring if it never gave up. -/
lemma success_forwardRounds_eq (hnew : s.knowledge.contains goal = false) (explored : ℕ) :
    (forwardRounds c goal rounds 0 s explored).success =
      (c.after goal rounds s).knowledge.contains goal := by
  induction rounds generalizing s explored with
  | zero => exact hnew.symm
  | succ rounds ih =>
      rcases round_cases hnew with hs | hreached | ⟨hreached, hprogress⟩
      · rw [hs.forwardRounds_eq, hs.after_eq, hnew]
      · have hfound : (c.round goal s).state.knowledge.contains goal = true :=
          takeUp_reached hreached
        rw [forwardRounds_succ, hnew, hreached, after_succ, contains_after hfound]
        rfl
      · rw [forwardRounds_of_progress hnew hreached hprogress, after_succ,
          ih (contains_round_eq_false hnew hreached)]

lemma entails_of_success (h : (prove axioms goal c).success = true) : Entails axioms goal := by
  have honest := prove_honest axioms goal c
  exact (honest.run.grounded (grounded_start axioms goal)).contains (honest.found h)

lemma entails_of_contains_after
    (h : (c.after goal n (.start axioms goal)).knowledge.contains goal = true) :
    Entails axioms goal := by
  have hstart := grounded_start axioms goal
  cases hknown : (ProofState.start axioms goal).knowledge.contains goal with
  | true => exact hstart.contains hknown
  | false =>
      rw [← success_forwardRounds_eq hknown 0] at h
      exact (forwardRounds_honest.run.grounded hstart).contains (forwardRounds_honest.found h)

/-- A search that does not go backward succeeds if and only if its rounds bring the goal. -/
lemma success_prove_iff (hstrategy : c.strategy ≠ .backward) :
    (prove axioms goal c).success = true ↔
      (c.after goal c.maxSteps.toNat (.start axioms goal)).knowledge.contains goal = true := by
  by_cases hentails : Entails axioms goal
  swap
  · exact ⟨fun h => absurd (entails_of_success h) hentails,
      fun h => absurd (entails_of_contains_after h) hentails⟩
  rw [prove_eq_of_checked fun _ => Formula.entails_iff.2 hentails]
  split_ifs with hknown
  · simp [contains_after hknown]
  rw [Bool.not_eq_true] at hknown
  rw [← success_forwardRounds_eq hknown 0]
  cases hc : c.strategy with
  | forward => exact Iff.rfl
  | backward => exact absurd hc hstrategy
  | bidirectional =>
      obtain ⟨passed, -, heq⟩ := exists_bidirectionalSearch_eq c goal (.start axioms goal)
      simp only [heq, forwardSearch, success_forwardRounds_eq hknown]

lemma Entails.of_perm (horder : order.Perm axioms) (h : Entails order goal) :
    Entails axioms goal :=
  fun v hv => h v fun f hf => hv f (horder.mem_iff.1 hf)

lemma same_start (horder : order.Perm axioms) :
    Same (.ofList axioms) (ProofState.start order goal).knowledge := by
  intro f
  rw [knowledge_start, Bool.eq_iff_iff, contains_axioms_iff, contains_axioms_iff]
  simp only [horder.mem_iff]

/-- A search that succeeds leaves a proof. -/
lemma exists_isProof_of_success (hstrategy : c.strategy ≠ .backward) (horder : order.Perm axioms)
    (h : (prove order goal c).success = true) :
    ∃ stages, c.IsProof goal (fun _ => True) axioms stages := by
  obtain ⟨stages, hlength, hstaged⟩ :=
    exists_staged (same_start horder) ((success_prove_iff hstrategy).1 h)
  exact ⟨stages, hlength.le, hstaged⟩

lemma success_of_spares (hstrategy : c.strategy ≠ .backward) (horder : order.Perm axioms)
    (hproof : c.IsProof goal (·.Firm c.excluded) axioms stages)
    (hspares : c.Spares goal (.start order goal) stages) :
    (prove order goal c).success = true :=
  (success_prove_iff hstrategy).2 (contains_after_of_le hproof.inTime
    (contains_after_of_spares (same_start horder).within hproof.staged hspares))

/-! ## Room for modus ponens -/

/-- Inferences that conclude the goal go first, and no others are told apart. -/
lemma SearchConfig.ranked_eq_mergeSort {rs : List Inference} (hplain : c.priorities = ∅) :
    c.ranked goal rs =
      rs.mergeSort fun a b => !(!a.conclusion.alike goal && b.conclusion.alike goal) := by
  have hmap : (rs.map fun r => (c.score goal r, r)).map (·.2) = rs := by
    simp [Function.comp_def]
  rw [ranked, ← congrArg (List.mergeSort · _) hmap]
  refine List.map_mergeSort fun a ha b hb => ?_
  obtain ⟨a, -, rfl⟩ := List.mem_map.1 ha
  obtain ⟨b, -, rfl⟩ := List.mem_map.1 hb
  rw [score_lt_of_plain hplain]

/-- So if the goal can be concluded, the first inference concludes it. -/
lemma SearchConfig.ranked_eq_cons {rs : List Inference} (hplain : c.priorities = ∅)
    (h : ∃ r ∈ rs, r.conclusion.alike goal = true) :
    ∃ first others, c.ranked goal rs = first :: others ∧ first.conclusion.alike goal = true := by
  obtain ⟨r, hr, hgoal⟩ := h
  have hsorted : (c.ranked goal rs).Pairwise
      fun a b => !(!a.conclusion.alike goal && b.conclusion.alike goal) := by
    rw [ranked_eq_mergeSort hplain]
    exact List.pairwise_mergeSort (by grind) (by grind) rs
  have hr : r ∈ c.ranked goal rs := mem_ranked.2 hr
  cases hranked : c.ranked goal rs with
  | nil => simp [hranked] at hr
  | cons first others =>
      rw [hranked] at hr hsorted
      refine ⟨first, others, rfl, ?_⟩
      rcases List.mem_cons.1 hr with rfl | hr
      · exact hgoal
      · have hbefore := List.rel_of_pairwise_cons hsorted hr
        simpa [hgoal] using hbefore

/-- What a round takes up is known after it, unless the goal is. -/
lemma contains_round_of_taken (hr : r ∈ c.taken goal s) :
    (c.round goal s).state.knowledge.contains goal = true ∨
      (c.round goal s).state.knowledge.contains r.conclusion = true := by
  cases hreached : (c.round goal s).reached with
  | true => exact Or.inl (takeUp_reached hreached)
  | false => exact Or.inr (contains_takeUp hreached r hr)

/-- Without priorities, a goal that can be concluded is known after the next round. -/
lemma contains_round_of_concluded (hplain : c.priorities = ∅) (hwidth : 1 ≤ c.maxBranching)
    (h : ∃ r ∈ Rule.applyAll s.knowledge none c.excluded, r.conclusion.alike goal = true) :
    (c.round goal s).state.knowledge.contains goal = true := by
  obtain ⟨first, others, hranked, hfirst⟩ := SearchConfig.ranked_eq_cons hplain h
  have htaken : first ∈ c.taken goal s := by
    obtain ⟨k, hk⟩ : ∃ k, c.maxBranching.toNat = k + 1 := ⟨c.maxBranching.toNat - 1, by omega⟩
    rw [taken_eq_take (by omega), hranked, hk, List.take_succ_cons]
    exact List.mem_cons_self
  rcases contains_round_of_taken htaken with hknown | hknown
  · exact hknown
  · rwa [FormulaSet.contains_congr hfirst] at hknown

/-- Modus ponens is in use, no rule has a priority, and no more arrows are written in the axioms
than a round has places. -/
structure SearchConfig.HasRoom (c : SearchConfig) (axioms : List Formula) : Prop where
  plain : c.priorities = ∅
  ponens : Rule.modusPonens.name ∉ c.excluded
  wide : ((axioms.flatMap Formula.subformulas).countP Formula.isArrow : ℤ) ≤ c.maxBranching

/-- Modus ponens is drawn at most once for each arrow. -/
lemma Rule.length_modusPonens_le :
    (modusPonens.apply kb none).length ≤ kb.toList.countP Formula.isArrow := by
  have hdraw : ∀ f, (ponens kb none f).length ≤ if f.isArrow then 1 else 0 := by
    intro f
    cases f with
    | impl p q =>
        have hone : (if (Formula.impl p q).isArrow then 1 else 0) = 1 := rfl
        rw [ponens, hone]
        split_ifs <;> simp
    | _ => simp [ponens]
  have hall : ∀ fs : List Formula,
      (fs.flatMap (ponens kb none)).length ≤ fs.countP Formula.isArrow := by
    intro fs
    induction fs with
    | nil => simp
    | cons f fs ih =>
        rw [List.flatMap_cons, List.length_append, List.countP_cons]
        have hf := hdraw f
        omega
  exact hall kb.toList

/-- Arrows that are known are different arrows of the axioms. -/
lemma countP_isArrow_le (hkb : ∀ f ∈ kb.toList, f.ArrowsOccur axioms) :
    kb.toList.countP Formula.isArrow ≤
      (axioms.flatMap Formula.subformulas).countP Formula.isArrow := by
  have hwritten : ∀ f ∈ kb.toList.filter Formula.isArrow,
      ∃ g ∈ (axioms.flatMap Formula.subformulas).filter Formula.isArrow, g.alike f = true := by
    intro f hf
    obtain ⟨hf, harrow⟩ := List.mem_filter.1 hf
    obtain ⟨a, ha, g, hg, hgf⟩ := hkb f hf f f.self_mem_subformulas harrow
    refine ⟨g, List.mem_filter.2 ⟨List.mem_flatMap.2 ⟨a, ha, hg⟩, ?_⟩, hgf⟩
    rw [Formula.isArrow_eq_of_alike hgf, harrow]
  have : Nonempty Formula := ⟨.var ""⟩
  choose! g hg hgf using hwritten
  have hdistinct : ((kb.toList.filter Formula.isArrow).map g).Nodup := by
    rw [List.Nodup, List.pairwise_map]
    refine (kb.distinct.filter _).imp_of_mem fun {a b} ha hb hab heq => ?_
    have halike := Formula.alike_trans (Formula.alike_symm (hgf a ha)) (heq ▸ hgf b hb)
    simp [hab] at halike
  have hsub : (kb.toList.filter Formula.isArrow).map g ⊆
      (axioms.flatMap Formula.subformulas).filter Formula.isArrow := by
    intro k hk
    obtain ⟨f, hf, rfl⟩ := List.mem_map.1 hk
    exact hg f hf
  have hlength := (List.subperm_of_subset hdistinct hsub).length_le
  rwa [List.length_map, ← List.countP_eq_length_filter, ← List.countP_eq_length_filter] at hlength

/-- With room for it, what modus ponens concludes is known after the next round, unless the goal
is. -/
lemma contains_round_of_ponens (hroom : c.HasRoom axioms)
    (harrows : ∀ f ∈ s.knowledge.toList, f.ArrowsOccur axioms)
    (hr : r ∈ Rule.modusPonens.apply s.knowledge none) :
    (c.round goal s).state.knowledge.contains goal = true ∨
      (c.round goal s).state.knowledge.contains r.conclusion = true := by
  have hcount : ((Rule.modusPonens.apply s.knowledge none).length : ℤ) ≤ c.maxBranching := by
    have hdrawn : (Rule.modusPonens.apply s.knowledge none).length ≤ _ := Rule.length_modusPonens_le
    have hwritten := countP_isArrow_le harrows
    have hwide := hroom.wide
    omega
  have hpositive : 0 < (Rule.modusPonens.apply s.knowledge none).length :=
    List.length_pos_of_mem hr
  by_cases hgoal : ∃ r ∈ Rule.applyAll s.knowledge none c.excluded, r.conclusion.alike goal = true
  · exact Or.inl (contains_round_of_concluded hroom.plain (by omega) hgoal)
  -- nothing concludes the goal, so the rules keep their order and this one comes first
  obtain ⟨rest, hfirst⟩ : ∃ rest, Rule.applyAll s.knowledge none c.excluded =
      Rule.modusPonens.apply s.knowledge none ++ rest := by
    rw [Rule.applyAll, Rule.allBut, Rule.all, List.filter_cons_of_pos (by simpa using hroom.ponens),
      List.flatMap_cons]
    exact ⟨_, rfl⟩
  have hranked : c.ranked goal (Rule.applyAll s.knowledge none c.excluded) =
      Rule.applyAll s.knowledge none c.excluded :=
    SearchConfig.ranked_of_plain hroom.plain (by simpa using hgoal)
  refine contains_round_of_taken ?_
  rw [taken_eq_take (by omega), hranked, hfirst, List.take_append,
    List.take_of_length_le (by omega)]
  exact List.mem_append_left _ hr

/-- What is recorded as modus ponens was drawn by it. -/
lemma Rule.mem_modusPonens {aim : Option Formula} {excluded : List String}
    (hr : r ∈ applyAll kb aim excluded) (hrule : r.rule = .modusPonens) :
    r ∈ modusPonens.apply kb aim := by
  obtain ⟨rule, -, hr⟩ := List.mem_flatMap.1 hr
  have hrecorded : r.rule = rule.recorded := (apply_drawnBy hr).recorded
  rw [hrule] at hrecorded
  cases rule with
  | modusPonens | implElim => exact hr
  | _ => simp [recorded] at hrecorded

/-- **With room for it, every proof by modus ponens is spared.** -/
lemma spares_of_ponens (hroom : c.HasRoom axioms) (hkb : Within kb s.knowledge)
    (harrows : ∀ f ∈ s.knowledge.toList, f.ArrowsOccur axioms)
    (hstaged : c.Staged goal (·.rule = .modusPonens) kb stages) : c.Spares goal s stages := by
  induction stages generalizing kb s with
  | nil => trivial
  | cons stage stages ih =>
      by_cases hdone : (c.round goal s).state.knowledge.contains goal = true
      · exact Or.inl hdone
      have hstage : ∀ f ∈ stage, (c.round goal s).state.knowledge.contains f = true := by
        intro f hf
        obtain ⟨kb', hsame, r, hr, hrule, hrf⟩ := hstaged.1 f hf
        have hmatched : Rule.Matched (Rule.modusPonens.apply kb' none)
            (Rule.modusPonens.apply s.knowledge none) :=
          Rule.apply_matched (hsame.symm.within.trans hkb) (by simp) (by simp)
        obtain ⟨r', hr', halike⟩ := hmatched r (Rule.mem_modusPonens hr hrule)
        rw [← FormulaSet.contains_congr (Formula.alike_trans halike hrf)]
        exact (contains_round_of_ponens hroom harrows hr').resolve_left hdone
      have hkept := (within_round hkb).insertAll hstage
      exact Or.inr ⟨fun f hf _ => hstage f hf,
        ih hkept (round_forall handedOn_arrowsOccur harrows) hstaged.2⟩

lemma spares_of_ponens_start (hroom : c.HasRoom axioms) (horder : order.Perm axioms)
    (hproof : c.IsProof goal (·.rule = .modusPonens) axioms stages) :
    c.Spares goal (.start order goal) stages :=
  spares_of_ponens hroom (same_start horder).within
    (fun _ hf => Formula.arrowsOccur_of_mem (horder.mem_iff.1 (mem_of_mem_start hf)))
    hproof.staged

lemma Inference.Firm.of_ponens {excluded : List String} (h : r.rule = .modusPonens) :
    r.Firm excluded :=
  ⟨by simp [h], by simp [h]⟩

/-! ## Two orders -/

/-- Neither spelling nor the width of a round keeps the search from a proof: if there is a proof at
all, one by firm inferences is spared.  Backward search only has to draw firm inferences where it
concludes the goal. -/
def SearchConfig.Impartial (c : SearchConfig) (goal : Formula) (axioms order : List Formula) :
    Prop :=
  match c.strategy with
  | .backward => ∀ r ∈ Rule.applyAll (.ofList order) (some goal) c.excluded,
      r.conclusion.alike goal = true → r.Firm c.excluded
  | .forward | .bidirectional =>
      (∃ stages, c.IsProof goal (fun _ => True) axioms stages) →
        ∃ stages, c.IsProof goal (·.Firm c.excluded) axioms stages ∧
          c.Spares goal (.start order goal) stages

section Orders

variable {order' : List Formula}

lemma ConcludedAtOnce.of_firm {kb' : FormulaSet} (hkb : Within kb kb')
    (hfirm : ∀ r ∈ Rule.applyAll kb (some goal) c.excluded,
      r.conclusion.alike goal = true → r.Firm c.excluded)
    (h : ConcludedAtOnce c goal kb) : ConcludedAtOnce c goal kb' := by
  obtain ⟨rule, hrule, r, hr, hgoal⟩ := h
  have hr : r ∈ Rule.applyAll kb (some goal) c.excluded := List.mem_flatMap.2 ⟨rule, hrule, hr⟩
  obtain ⟨r', hr', halike⟩ := Rule.exists_alike_of_firm hkb hr (hfirm r hr hgoal)
  obtain ⟨rule', hrule', hr'⟩ := List.mem_flatMap.1 hr'
  exact ⟨rule', hrule', r', hr', Formula.alike_trans halike hgoal⟩

lemma success_backward_of_success (hbackward : c.strategy = .backward)
    (horder : order'.Perm order)
    (hfirm : ∀ r ∈ Rule.applyAll (.ofList order) (some goal) c.excluded,
      r.conclusion.alike goal = true → r.Firm c.excluded)
    (h : (prove order goal c).success = true) : (prove order' goal c).success = true := by
  have hentails : Entails order goal := entails_of_success h
  have hentails' : Entails order' goal := hentails.of_perm horder.symm
  have hsame : Same (.ofList order) (ProofState.start order' goal).knowledge := same_start horder
  rw [prove_eq_of_checked fun _ => Formula.entails_iff.2 hentails, hbackward, knowledge_start] at h
  rw [prove_eq_of_checked fun _ => Formula.entails_iff.2 hentails', hbackward, ← hsame goal]
  split_ifs at h ⊢ with hknown
  · rfl
  · simp only [success_backwardSearch_iff, knowledge_start order] at h ⊢
    exact ⟨h.1, h.2.imp (hsame.within goal) (.of_firm hsame.within hfirm)⟩

/-- Impartial searches find what is found in another order. -/
lemma success_of_impartial (horder : order.Perm axioms) (horder' : order'.Perm axioms)
    (himpartial : c.Impartial goal axioms order) (himpartial' : c.Impartial goal axioms order')
    (h : (prove order goal c).success = true) : (prove order' goal c).success = true := by
  unfold SearchConfig.Impartial at himpartial himpartial'
  cases hstrategy : c.strategy with
  | backward =>
      simp only [hstrategy] at himpartial
      exact success_backward_of_success hstrategy (horder'.trans horder.symm) himpartial h
  | forward | bidirectional =>
      simp only [hstrategy] at himpartial'
      obtain ⟨stages, hproof, hspares⟩ :=
        himpartial' (exists_isProof_of_success (by simp [hstrategy]) horder h)
      exact success_of_spares (by simp [hstrategy]) horder' hproof hspares

end Orders

/-- **What the order of the axioms decides.**  A search that does not go backward succeeds, in any
order of the axioms, only if they have a proof in stages, of which no order is asked.  In a given
order it finds every proof by firm inferences of which none of its rounds cuts anything off, and if
there is room, every proof by modus ponens.  So the verdict is the same in two orders unless the
goal follows from the axioms and, in one of them, what is cut off or how it is spelled keeps the
search from every proof. -/
theorem prove_unaffected_by_order (axioms : List Formula) (goal : Formula) (c : SearchConfig) :
    (c.strategy ≠ .backward → ∀ order : List Formula, order.Perm axioms →
      ((prove order goal c).success = true →
        ∃ stages, c.IsProof goal (fun _ => True) axioms stages) ∧
      (∀ stages, c.IsProof goal (·.Firm c.excluded) axioms stages →
        c.Spares goal (.start order goal) stages → (prove order goal c).success = true) ∧
      (c.HasRoom axioms → ∀ stages, c.IsProof goal (·.rule = .modusPonens) axioms stages →
        (prove order goal c).success = true)) ∧
    ∀ order order' : List Formula, order.Perm axioms → order'.Perm axioms →
      (Entails axioms goal → c.Impartial goal axioms order ∧ c.Impartial goal axioms order') →
      (prove order goal c).success = (prove order' goal c).success := by
  constructor
  · intro hstrategy order horder
    refine ⟨exists_isProof_of_success hstrategy horder,
      fun stages => success_of_spares hstrategy horder, fun hroom stages hproof => ?_⟩
    have hspares : c.Spares goal (.start order goal) stages :=
      spares_of_ponens_start hroom horder hproof
    exact success_of_spares hstrategy horder (hproof.mono fun r => .of_ponens) hspares
  · intro order order' horder horder' himpartial
    rw [Bool.eq_iff_iff]
    constructor
    · intro h
      obtain ⟨hfirst, hsecond⟩ := himpartial ((entails_of_success h).of_perm horder)
      exact success_of_impartial horder horder' hfirst hsecond h
    · intro h
      obtain ⟨hfirst, hsecond⟩ := himpartial ((entails_of_success h).of_perm horder')
      exact success_of_impartial horder' horder hsecond hfirst h

/-- Three implications in a row. -/
def chain : List Formula :=
  [.var "P", .impl (.var "P") (.var "Q"), .impl (.var "Q") (.var "R"), .impl (.var "R") (.var "S")]

lemma chain_isProof : ({} : SearchConfig).IsProof (.var "S") (·.rule = .modusPonens) chain
    [[.var "Q"], [.var "R"], [.var "S"]] := by
  refine ⟨by decide, ?_, ?_, ?_, rfl⟩
  all_goals
    refine List.forall_mem_singleton.2 ⟨_, fun _ => rfl, ?_⟩
    decide

lemma chain_hasRoom : ({} : SearchConfig).HasRoom chain :=
  ⟨rfl, by decide, by decide⟩

/-- With all defaults the end of the chain is found in each of its twenty-four orders. -/
theorem prove_unaffected_by_order_chain :
    ({} : SearchConfig).HasRoom chain ∧ Entails chain (.var "S") ∧
      (∀ order : List Formula, order.Perm chain →
        ({} : SearchConfig).Impartial (.var "S") chain order ∧
          (prove order (.var "S") {}).success = true) ∧
      ∀ order order' : List Formula, order.Perm chain → order'.Perm chain →
        (prove order (.var "S") {}).success = (prove order' (.var "S") {}).success := by
  obtain ⟨hfound, hsame⟩ := prove_unaffected_by_order chain (.var "S") {}
  have himpartial : ∀ order : List Formula, order.Perm chain →
      ({} : SearchConfig).Impartial (.var "S") chain order := fun order horder _ =>
    ⟨_, chain_isProof.mono fun r => .of_ponens,
      spares_of_ponens_start chain_hasRoom horder chain_isProof⟩
  have hsuccess : ∀ order : List Formula, order.Perm chain →
      (prove order (.var "S") {}).success = true := fun order horder =>
    (hfound (by decide) order horder).2.2 chain_hasRoom _ chain_isProof
  exact ⟨chain_hasRoom, entails_of_success (hsuccess chain (.refl _)),
    fun order horder => ⟨himpartial order horder, hsuccess order horder⟩,
    fun order order' horder horder' => hsame order order' horder horder' fun _ =>
      ⟨himpartial order horder, himpartial order' horder'⟩⟩

/-! ## Where the order decides -/

/-- Backward search that takes only the left sides of conjunctions. -/
def leftSidesOnly : SearchConfig :=
  { strategy := .backward, checksSemantics := false, excluded := [Rule.conjElimRight.name] }

/-- The crowd with the implication that leads on in front of the others. -/
def crowdAhead : List Formula :=
  .var "P" :: (["K", "A", "B", "C", "D", "E", "F", "G", "H", "I", "J"].map fun x =>
    .impl (.var "P") (.var x)) ++ [.impl (.var "K") (.var "L")]

/-- In this order the first round takes up `K`, and the second concludes the goal from it. -/
lemma crowdAhead_success : (prove crowdAhead (.var "L") {}).success = true := by
  have hfirst : ({} : SearchConfig).after (.var "L") 1 (.start crowdAhead (.var "L")) = _ :=
    after_one_of_plain (by decide +kernel)
  have hsecond : (({} : SearchConfig).after (.var "L") 2
      (.start crowdAhead (.var "L"))).knowledge.contains (.var "L") = true := by
    rw [SearchConfig.after, Function.iterate_succ_apply', ← SearchConfig.after, hfirst]
    refine contains_round_of_concluded rfl (by decide) (List.any_eq_true.1 ?_)
    decide +kernel
  exact (success_prove_iff (by decide)).2 (contains_after_of_le (by decide) hsecond)

/-- **The order of the axioms may decide**, each time for another reason: only one spelling of the
conjunction is kept and has the goal on its left; only in one order does the resolvent group its
literals like the goal; and with all defaults, only in one order is the inference that leads on not
cut off behind others that are known. -/
theorem prove_affected_by_order :
    let p := Formula.var "P"
    let q := Formula.var "Q"
    let r := Formula.var "R"
    let s := Formula.var "S"
    let backward : SearchConfig := { strategy := .backward, checksSemantics := false }
    ((prove [.conj p q, .conj q p] p leftSidesOnly).success = true ∧
      (prove [.conj q p, .conj p q] p leftSidesOnly).success = false) ∧
    ((prove [.disj p q, .disj (.neg p) (.disj r s)] (.disj (.disj q r) s) backward).success = true ∧
      (prove [.disj (.neg p) (.disj r s), .disj p q] (.disj (.disj q r) s) backward).success =
        false) ∧
    crowdAhead.Perm crowd ∧ (prove crowdAhead (.var "L") {}).success = true ∧
      (prove crowd (.var "L") {}).success = false := by
  intro p q r s backward
  refine ⟨⟨by decide, by decide⟩, ⟨by decide, by decide⟩, by decide +kernel, crowdAhead_success, ?_⟩
  obtain ⟨m, -, heq⟩ :=
    prove_of_exhausted rfl (fun _ => crowd_entails) crowd_exhausted (by decide)
  rw [heq]

end AnnealProver
