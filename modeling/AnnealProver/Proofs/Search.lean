import Mathlib.Logic.Relation
import AnnealProver.Proof.Search
import AnnealProver.Proofs.Rules

/-!
# Searches only know what follows

The three strategies differ in what they look at, but to the proof state they all do the same two
things, again and again: they record an inference that some rule drew from formulas the state
knows, or they change the status.  `SearchStep` is that relation and `SearchRun` its repetition.
Each strategy is shown once to be a run (`forwardRounds_honest`, `backwardSearch_honest`,
`bidirectionalSearch_honest`); what holds of a search after that is what survives a single step.

**Soundness** is the first such fact: a state that knows only what the axioms entail
(`ProofState.Grounded`) still does after a step, because rules are justified
(`Rule.apply_justified`).  The truth table that may be looked at beforehand plays no part in it.
-/

namespace AnnealProver

/-- What a search may do to a proof state.  The knowledge base `kb` that the rule looked at may be
older than the state, since the inferences of a round are all drawn before the first of them is
recorded; the conclusion may be recorded in the goal's spelling. -/
inductive SearchStep (c : SearchConfig) : ProofState → ProofState → Prop
  | record {s : ProofState} {rule : Rule} {kb : FormulaSet} {aim : Option Formula}
      {r : Inference} {conclusion : Formula}
      (hrule : rule ∈ Rule.allBut c.excluded) (hr : r ∈ rule.apply kb aim)
      (hkb : ∀ f ∈ kb.toList, f ∈ s.knowledge.toList)
      (hspelling : r.conclusion.alike conclusion = true)
      (hnew : s.knowledge.contains conclusion = false) :
      SearchStep c s (s.record r conclusion)
  | judge {s : ProofState} (status : Status) : SearchStep c s { s with status }

/-- Any number of steps. -/
abbrev SearchRun (c : SearchConfig) : ProofState → ProofState → Prop :=
  Relation.ReflTransGen (SearchStep c)

/-- The result was reached by steps, and success is claimed only with the goal known. -/
structure SearchResult.Honest (c : SearchConfig) (goal : Formula) (s : ProofState)
    (result : SearchResult) : Prop where
  run : SearchRun c s result.state
  found : result.success = true → result.state.knowledge.contains goal = true

/-- Recording a new formula makes everything alike known. -/
lemma ProofState.contains_record {s : ProofState} {r : Inference} {f goal : Formula}
    (hnew : s.knowledge.contains f = false) (h : f.alike goal = true) :
    (s.record r f).knowledge.contains goal = true :=
  OrderedSet.contains_iff.2 ⟨f, OrderedSet.mem_insert_self hnew, h⟩

/-! ## Loops that stop early -/

section Loops

variable {α σ : Type} {step : α → σ → Bool × σ} {as : List α} {s : σ}

/-- An attempt that achieves `Q` when it succeeds and keeps `P` when it fails. -/
def Attempt (P Q : σ → Prop) (outcome : Bool × σ) : Prop :=
  (outcome.1 = true → Q outcome.2) ∧ (outcome.1 = false → P outcome.2)

/-- Attempts made one after the other until one succeeds are together such an attempt. -/
lemma firstSuccess_attempt {P Q : σ → Prop}
    (hstep : ∀ a ∈ as, ∀ s, P s → Attempt P Q (step a s)) (hs : P s) :
    Attempt P Q (firstSuccess step as s) := by
  induction as generalizing s with
  | nil => exact ⟨by simp [firstSuccess], fun _ => hs⟩
  | cons a as ih =>
      have hhead := hstep a List.mem_cons_self s hs
      rw [firstSuccess]
      split
      · rename_i t heq
        rw [heq] at hhead
        exact ⟨hhead.1, by simp⟩
      · rename_i t heq
        rw [heq] at hhead
        exact ih (fun b hb => hstep b (List.mem_cons_of_mem _ hb)) (hhead.2 rfl)

/-- One element on which every attempt succeeds is enough. -/
lemma firstSuccess_of_mem {a : α} (ha : a ∈ as) (hstep : ∀ s, (step a s).1 = true) :
    (firstSuccess step as s).1 = true := by
  induction as generalizing s with
  | nil => simp at ha
  | cons b as ih =>
      rw [firstSuccess]
      split
      · rfl
      · rename_i t heq
        rcases List.mem_cons.1 ha with rfl | ha
        · have := hstep s
          simp [heq] at this
        · exact ih ha

lemma allSucceed_of_forall (hstep : ∀ a ∈ as, ∀ s, (step a s).1 = true) :
    (allSucceed step as s).1 = true := by
  induction as generalizing s with
  | nil => rfl
  | cons a as ih =>
      have hhead := hstep a List.mem_cons_self s
      rw [allSucceed]
      split
      · exact ih fun b hb => hstep b (List.mem_cons_of_mem _ hb)
      · rename_i t heq
        simp [heq] at hhead

lemma forall_of_allSucceed {R : α → Prop} (hstep : ∀ a s, (step a s).1 = true → R a)
    (h : (allSucceed step as s).1 = true) : ∀ a ∈ as, R a := by
  induction as generalizing s with
  | nil => simp
  | cons a as ih =>
      rw [allSucceed] at h
      split at h
      · rename_i t heq
        exact List.forall_mem_cons.2 ⟨hstep a s (by rw [heq]), ih h⟩
      · simp at h

end Loops

variable {c : SearchConfig} {goal : Formula}

/-! ## Forward -/

lemma mem_of_mem_takeTo {α : Type} {count : Int} {as : List α} {a : α}
    (h : a ∈ takeTo count as) : a ∈ as := by
  rw [takeTo] at h
  split_ifs at h
  · exact List.mem_of_mem_take h
  · exact List.mem_of_mem_take h

lemma SearchConfig.mem_ranked {rs : List Inference} {r : Inference} :
    r ∈ c.ranked goal rs ↔ r ∈ rs := by
  simp [SearchConfig.ranked]

/-- Recording the inferences of a round is a run, although all of them were drawn from the
knowledge base `kb` at its beginning. -/
lemma takeUp_run {kb : FormulaSet} {rs : List Inference} {s : ProofState} {progress : Bool}
    (hrs : ∀ r ∈ rs, r ∈ Rule.applyAll kb none c.excluded)
    (hkb : ∀ f ∈ kb.toList, f ∈ s.knowledge.toList) :
    SearchRun c s (takeUp goal rs s progress).state := by
  induction rs generalizing s progress with
  | nil => exact .refl
  | cons r rs ih =>
      have hrest : ∀ r ∈ rs, r ∈ Rule.applyAll kb none c.excluded :=
        fun r hr => hrs r (List.mem_cons_of_mem _ hr)
      rw [takeUp]
      by_cases hknown : s.knowledge.contains r.conclusion = true
      · rw [if_pos hknown]
        exact ih hrest hkb
      · rw [if_neg hknown]
        obtain ⟨rule, hrule, hr⟩ := List.mem_flatMap.1 (hrs r List.mem_cons_self)
        have hstep : SearchStep c s (s.record r r.conclusion) :=
          .record hrule hr hkb (Formula.alike_refl _) (by simpa using hknown)
        split_ifs
        · exact .single hstep
        · exact .head hstep (ih hrest fun f hf => OrderedSet.mem_insert_of_mem (hkb f hf))

lemma takeUp_reached {rs : List Inference} {s : ProofState} {progress : Bool}
    (h : (takeUp goal rs s progress).reached = true) :
    (takeUp goal rs s progress).state.knowledge.contains goal = true := by
  induction rs generalizing s progress with
  | nil => simp [takeUp] at h
  | cons r rs ih =>
      rw [takeUp] at h ⊢
      by_cases hknown : s.knowledge.contains r.conclusion = true
      · rw [if_pos hknown] at h ⊢
        exact ih h
      · rw [if_neg hknown] at h ⊢
        by_cases hgoal : r.conclusion.alike goal = true
        · simp only [hgoal, if_true]
          exact ProofState.contains_record (by simpa using hknown) hgoal
        · simp only [hgoal, Bool.false_eq_true, if_false] at h ⊢
          exact ih h

lemma forwardRounds_honest {rounds stalled explored : ℕ} {s : ProofState} :
    (forwardRounds c goal rounds stalled s explored).Honest c goal s := by
  induction rounds generalizing stalled explored s with
  | zero => exact ⟨.single (.judge _), by simp [forwardRounds]⟩
  | succ rounds ih =>
      rw [forwardRounds]
      by_cases hknown : s.knowledge.contains goal = true
      · simp only [hknown, if_true]
        exact ⟨.single (.judge _), fun _ => hknown⟩
      · simp only [hknown, Bool.false_eq_true, if_false]
        set round := takeUp goal (takeTo c.maxBranching
          (c.ranked goal (Rule.applyAll s.knowledge none c.excluded))) s false with hround
        have hrun : SearchRun c s round.state := by
          refine takeUp_run (fun r hr => ?_) fun f hf => hf
          exact SearchConfig.mem_ranked.1 (mem_of_mem_takeTo hr)
        split_ifs with hreached hprogress hstalled
        · exact ⟨hrun.tail (.judge _), fun _ => takeUp_reached hreached⟩
        · exact ⟨hrun.trans ih.run, ih.found⟩
        · exact ⟨hrun.trans ih.run, ih.found⟩
        · exact ⟨hrun.tail (.judge _), by simp⟩

/-! ## Backward -/

/-- Premises that are known are not searched for. -/
lemma allSucceed_known {search : Formula → Descent → Bool × Descent} {premises : List Formula}
    {d : Descent} (h : ∀ p ∈ premises, d.state.knowledge.contains p = true) :
    allSucceed (fun p d => if d.state.knowledge.contains p then (true, d) else search p d)
      premises d = (true, d) := by
  induction premises with
  | nil => rfl
  | cons p ps ih =>
      rw [allSucceed]
      rw [h p List.mem_cons_self]
      exact ih fun q hq => h q (List.mem_cons_of_mem _ hq)

/-- Some inference that is led by the goal concludes it. -/
def ConcludedAtOnce (c : SearchConfig) (goal : Formula) (kb : FormulaSet) : Prop :=
  ∃ rule ∈ Rule.allBut c.excluded, ∃ r ∈ rule.apply kb (some goal), r.conclusion.alike goal = true

/-- Backward search takes at most one step.  The premises of an inference are known already, so the
search for missing ones never starts, and a failure leaves the state as it was. -/
lemma descend_attempt {fuel : ℕ} {d : Descent} :
    Attempt (fun d' => d'.state = d.state)
      (fun d' => SearchRun c d.state d'.state ∧ d'.state.knowledge.contains goal = true ∧
        (d.state.knowledge.contains goal = true ∨ ConcludedAtOnce c goal d.state.knowledge))
      (descend c fuel goal d) := by
  cases fuel with
  | zero => exact ⟨by simp [descend], fun _ => rfl⟩
  | succ fuel =>
      rw [descend]
      by_cases hvisited : d.visited.contains goal = true
      · simp only [hvisited, if_true]
        exact ⟨by simp, fun _ => rfl⟩
      by_cases hknown : d.state.knowledge.contains goal = true
      · simp only [hvisited, hknown, Bool.false_eq_true, if_false, if_true]
        exact ⟨fun _ => ⟨.refl, hknown, Or.inl trivial⟩, by simp⟩
      simp only [hvisited, hknown, Bool.false_eq_true, if_false]
      refine firstSuccess_attempt (fun rule hrule d' hd' => ?_) rfl
      rw [hd']
      refine firstSuccess_attempt (fun r hr d'' hd'' => ?_) hd'
      by_cases hconclusion : r.conclusion.alike goal = true
      · have hpremises : ∀ p ∈ r.premises, d''.state.knowledge.contains p = true := by
          rw [hd'']
          exact (Rule.apply_justified hr).known
        have hnew : d.state.knowledge.contains goal = false := by simpa using hknown
        rw [if_pos hconclusion, allSucceed_known hpremises]
        refine ⟨fun _ => ?_, by simp⟩
        simp only [hd'']
        exact ⟨.single (.record hrule hr (fun f hf => hf) hconclusion hnew),
          ProofState.contains_record hnew goal.alike_refl,
          Or.inr ⟨rule, hrule, r, hr, hconclusion⟩⟩
      · rw [if_neg hconclusion]
        exact ⟨by simp, fun _ => hd''⟩

lemma backwardSearch_honest {s : ProofState} : (backwardSearch c goal s).Honest c goal s := by
  have h : Attempt _ _ (descend c (c.maxDepth + 1).toNat goal { state := s }) := descend_attempt
  rw [backwardSearch]
  generalize descend c (c.maxDepth + 1).toNat goal { state := s } = outcome at h ⊢
  obtain ⟨success, d⟩ := outcome
  cases success with
  | true => exact ⟨(h.1 rfl).1, fun _ => (h.1 rfl).2.1⟩
  | false =>
      have hstate : d.state = s := h.2 rfl
      exact ⟨hstate ▸ .refl, by simp⟩

/-! ## Bidirectional -/

/-- Every way out of the rounds from both ends leads to the same search forward, from the state as
it was; only the rounds are counted. -/
lemma exists_meetHalfway_eq {rounds explored : ℕ} {s : ProofState} {kb targets : FormulaSet} :
    ∃ passed ≤ rounds, meetHalfway c goal s rounds kb targets explored =
      forwardSearch c goal s (explored + passed) := by
  induction rounds generalizing kb targets explored with
  | zero => exact ⟨0, le_rfl, rfl⟩
  | succ rounds ih =>
      rw [meetHalfway]
      split
      · exact ⟨1, by omega, rfl⟩
      · split_ifs
        · exact ⟨1, by omega, rfl⟩
        · obtain ⟨passed, hpassed, heq⟩ := ih
          exact ⟨passed + 1, by omega, by rw [heq, Nat.add_assoc, Nat.add_comm 1]⟩

lemma exists_bidirectionalSearch_eq (c : SearchConfig) (goal : Formula) (s : ProofState) :
    ∃ passed ≤ (c.maxSteps.fdiv 2).toNat,
      bidirectionalSearch c goal s = forwardSearch c goal s passed := by
  obtain ⟨passed, hpassed, heq⟩ := exists_meetHalfway_eq
  exact ⟨0 + passed, by rwa [Nat.zero_add], heq⟩

lemma bidirectionalSearch_honest {s : ProofState} :
    (bidirectionalSearch c goal s).Honest c goal s := by
  obtain ⟨passed, -, heq⟩ := exists_bidirectionalSearch_eq c goal s
  rw [heq]
  exact forwardRounds_honest

/-! ## The whole search -/

/-- Whatever the strategy, the outcome is reached from the axioms by steps. -/
lemma prove_honest (axioms : List Formula) (goal : Formula) (c : SearchConfig) :
    (prove axioms goal c).Honest c goal (ProofState.start axioms goal) := by
  rw [prove]
  by_cases hknown : (ProofState.start axioms goal).knowledge.contains goal = true
  · simp only [hknown, if_true]
    exact ⟨.single (.judge _), fun _ => hknown⟩
  simp only [hknown, Bool.false_eq_true, if_false]
  split_ifs
  · exact ⟨.single (.judge _), by simp⟩
  · cases c.strategy with
    | forward => exact forwardRounds_honest
    | backward => exact backwardSearch_honest
    | bidirectional => exact bidirectionalSearch_honest

/-! ## Soundness -/

/-- The state knows only what the axioms entail. -/
def ProofState.Grounded (axioms : List Formula) (s : ProofState) : Prop :=
  ∀ f ∈ s.knowledge.toList, Entails axioms f

lemma ProofState.Grounded.contains {axioms : List Formula} {s : ProofState} {f : Formula}
    (hs : s.Grounded axioms) (hf : s.knowledge.contains f = true) : Entails axioms f :=
  fun v hv => Satisfies.eval_of_contains (fun g hg => hs g hg v hv) hf

/-- At the beginning only the axioms are known. -/
lemma mem_of_mem_start {axioms : List Formula} {f : Formula}
    (h : f ∈ (ProofState.start axioms goal).knowledge.toList) : f ∈ axioms := by
  have hmem : f ∈ (∅ : FormulaSet).toList ∨ f ∈ (OrderedSet.ofList axioms : FormulaSet).toList :=
    OrderedSet.mem_or_mem_of_mem_insertAll h
  exact OrderedSet.mem_of_mem_ofList (by simpa using hmem)

lemma grounded_start (axioms : List Formula) (goal : Formula) :
    (ProofState.start axioms goal).Grounded axioms :=
  fun f hf _ hv => hv f (mem_of_mem_start hf)

/-- A justified inference from older knowledge adds nothing that does not follow: its premises are
known now, hence entailed, and it entails its conclusion in any spelling. -/
lemma SearchStep.grounded {axioms : List Formula} {s t : ProofState} (h : SearchStep c s t)
    (hs : s.Grounded axioms) : t.Grounded axioms := by
  cases h with
  | judge status => exact hs
  | @record rule kb aim r conclusion hrule hr hkb hspelling hnew =>
      have hr := Rule.apply_justified hr
      have hpremises : ∀ p ∈ r.premises, Entails axioms p := by
        intro p hp v hv
        exact Satisfies.eval_of_contains (fun f hf => hs f (hkb f hf) v hv) (hr.known p hp)
      intro f hf
      rcases OrderedSet.mem_or_eq_of_mem_insert hf with hf | rfl
      · exact hs f hf
      · intro v hv
        rw [← Formula.eval_eq_of_alike hspelling]
        exact Entails.trans hpremises hr.sound v hv

lemma SearchRun.grounded {axioms : List Formula} {s t : ProofState} (h : SearchRun c s t)
    (hs : s.Grounded axioms) : t.Grounded axioms := by
  induction h with
  | refl => exact hs
  | tail _ hstep ih => exact hstep.grounded ih

/-- **Proof search is sound.**  With any strategy and any configuration, whether or not a truth
table was looked at first: a goal that was proved is entailed by the axioms, and so is every formula
that the search knows when it ends, also when it gives up. -/
theorem prove_sound (axioms : List Formula) (goal : Formula) (c : SearchConfig) :
    ((prove axioms goal c).success = true → Entails axioms goal) ∧
      ∀ f ∈ (prove axioms goal c).state.knowledge.toList, Entails axioms f := by
  have honest := prove_honest axioms goal c
  have hgrounded : (prove axioms goal c).state.Grounded axioms :=
    honest.run.grounded (grounded_start axioms goal)
  exact ⟨fun hsuccess => hgrounded.contains (honest.found hsuccess), hgrounded⟩

end AnnealProver
