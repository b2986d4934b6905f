import AnnealProver.Proofs.Search

/-!
# What each strategy comes to

**Bidirectional search is forward search.**  Its rounds from both ends draw conclusions of their
own, but they only decide when the search forward begins, and that one starts from the axioms again.
So the two strategies agree in all they return but the count of rounds (`bidirectional_is_forward`).
What has to be shown of forward search is that it never looks at the count it was given, nor at the
name of the strategy.

**Backward search is one step.**  The premises of an inference are known already, so the search for
missing ones never starts (`descend_attempt`).  What is left is whether some rule with the goal in
view concludes it (`success_backwardSearch_iff`).
-/

namespace AnnealProver

variable {c : SearchConfig} {goal : Formula} {s : ProofState}

/-! ## Forward and bidirectional -/

/-- The result with so many rounds more on its count. -/
def SearchResult.later (result : SearchResult) (passed : ℕ) : SearchResult :=
  { result with explored := result.explored + passed }

lemma forwardRounds_later {rounds stalled explored passed : ℕ} :
    forwardRounds c goal rounds stalled s (explored + passed) =
      (forwardRounds c goal rounds stalled s explored).later passed := by
  induction rounds generalizing stalled s explored with
  | zero => rfl
  | succ rounds ih =>
      rw [forwardRounds, forwardRounds, Nat.add_right_comm explored passed 1]
      simp only [ih]
      split_ifs <;> rfl

lemma forwardSearch_later (passed : ℕ) :
    forwardSearch c goal s passed = (forwardSearch c goal s 0).later passed := by
  rw [forwardSearch, forwardSearch, ← forwardRounds_later, Nat.zero_add]

/-- Once the search is under way, neither the name of the strategy nor the number of rounds laid
down is looked at. -/
lemma forwardRounds_limits {strategy : Strategy} {maxSteps : ℤ} {rounds stalled explored : ℕ} :
    forwardRounds { c with strategy, maxSteps } goal rounds stalled s explored =
      forwardRounds c goal rounds stalled s explored := by
  induction rounds generalizing stalled s explored with
  | zero => rfl
  | succ rounds ih =>
      rw [forwardRounds, forwardRounds]
      simp only [ih]
      rfl

lemma forwardRounds_strategy {strategy : Strategy} {rounds stalled explored : ℕ} :
    forwardRounds { c with strategy } goal rounds stalled s explored =
      forwardRounds c goal rounds stalled s explored :=
  forwardRounds_limits

/-- **Bidirectional search is forward search.**  With any axioms, goal and limits the two have the
same verdict, the same state with the same steps and the same knowledge in the same order, and the
same path; the bidirectional one counts no fewer rounds, and at most half the steps more. -/
theorem bidirectional_is_forward (axioms : List Formula) (goal : Formula) (c : SearchConfig) :
    let both := prove axioms goal { c with strategy := .bidirectional }
    let forward := prove axioms goal { c with strategy := .forward }
    both.success = forward.success ∧ both.state = forward.state ∧ both.path = forward.path ∧
      forward.explored ≤ both.explored ∧
      (both.explored : ℤ) - forward.explored ≤ max 0 (c.maxSteps.fdiv 2) := by
  intro both forward
  have hlater : ∃ passed ≤ (c.maxSteps.fdiv 2).toNat, both = forward.later passed := by
    simp only [both, forward, prove]
    split_ifs
    · exact ⟨0, Nat.zero_le _, rfl⟩
    · exact ⟨0, Nat.zero_le _, rfl⟩
    · obtain ⟨passed, hpassed, heq⟩ := exists_bidirectionalSearch_eq
        { c with strategy := .bidirectional } goal (ProofState.start axioms goal)
      refine ⟨passed, hpassed, ?_⟩
      rw [heq, forwardSearch_later]
      simp only [forwardSearch, forwardRounds_strategy]
  obtain ⟨passed, hpassed, heq⟩ := hlater
  rw [heq]
  refine ⟨rfl, rfl, rfl, Nat.le_add_right _ _, ?_⟩
  simp only [SearchResult.later]
  omega

/-! ## Backward -/

/-- One element on which the attempt succeeds is enough, as long as the failures before it leave
intact what its success rests on. -/
lemma firstSuccess_of_attempt {α σ : Type} {step : α → σ → Bool × σ} {as : List α} {s : σ} {a : α}
    {P Q : σ → Prop} (hstep : ∀ a ∈ as, ∀ s, P s → Attempt P Q (step a s)) (hs : P s)
    (ha : a ∈ as) (hsucceeds : ∀ s, P s → (step a s).1 = true) :
    (firstSuccess step as s).1 = true := by
  induction as generalizing s with
  | nil => simp at ha
  | cons b as ih =>
      rw [firstSuccess]
      split
      · rfl
      · rename_i t hfailed
        have ht : P t := by
          have hb := hstep b List.mem_cons_self s hs
          rw [hfailed] at hb
          exact hb.2 rfl
        rcases List.mem_cons.1 ha with rfl | ha
        · have := hsucceeds s hs
          simp [hfailed] at this
        · exact ih (fun b hb => hstep b (List.mem_cons_of_mem _ hb)) ht ha

/-- The try to conclude the goal by one inference. -/
def descendBy (c : SearchConfig) (fuel : ℕ) (goal : Formula) (r : Inference) (d : Descent) :
    Bool × Descent :=
  if r.conclusion.alike goal then
    match allSucceed (fun p d => if d.state.knowledge.contains p then (true, d)
        else descend c fuel p d) r.premises d with
    | (true, d) => (true, { d with state := d.state.record r goal })
    | (false, d) => (false, d)
  else (false, d)

lemma descend_eq {fuel : ℕ} {d : Descent} (hvisited : d.visited.contains goal = false)
    (hnew : d.state.knowledge.contains goal = false) :
    descend c (fuel + 1) goal d = firstSuccess (fun rule d =>
      firstSuccess (descendBy c fuel goal) (rule.apply d.state.knowledge (some goal)) d)
      (Rule.allBut c.excluded)
      { d with explored := d.explored + 1, visited := d.visited.insert goal } := by
  rw [descend]
  simp only [hvisited, hnew, Bool.false_eq_true, if_false]
  rfl

/-- The premises are at hand, so a try succeeds as soon as the conclusion is the right one. -/
lemma descendBy_eq {fuel : ℕ} {d : Descent} {rule : Rule} {r : Inference}
    (hr : r ∈ rule.apply d.state.knowledge (some goal)) :
    descendBy c fuel goal r d = if r.conclusion.alike goal then
      (true, { d with state := d.state.record r goal }) else (false, d) := by
  rw [descendBy, allSucceed_known (Rule.apply_justified hr).known]

lemma success_descend {fuel : ℕ} {d : Descent} (hvisited : d.visited.contains goal = false)
    (h : d.state.knowledge.contains goal = true ∨ ConcludedAtOnce c goal d.state.knowledge) :
    (descend c (fuel + 1) goal d).1 = true := by
  by_cases hknown : d.state.knowledge.contains goal = true
  · simp [descend, hvisited, hknown]
  obtain ⟨rule, hrule, r, hr, hconclusion⟩ := h.resolve_left hknown
  rw [descend_eq hvisited (by simpa using hknown)]
  have hattempt : ∀ rule : Rule, ∀ r ∈ rule.apply d.state.knowledge (some goal), ∀ d' : Descent,
      d'.state = d.state →
        Attempt (fun d' => d'.state = d.state) (fun _ => True) (descendBy c fuel goal r d') := by
    intro rule r hr d' hd'
    rw [← hd'] at hr
    rw [descendBy_eq hr]
    split_ifs
    · exact ⟨fun _ => trivial, by simp⟩
    · exact ⟨by simp, fun _ => hd'⟩
  refine firstSuccess_of_attempt (P := fun d' => d'.state = d.state) (Q := fun _ => True)
    (fun rule _ d' hd' => ?_) rfl hrule fun d' hd' => ?_
  · rw [hd']
    exact firstSuccess_attempt (hattempt rule) hd'
  · rw [hd']
    refine firstSuccess_of_attempt (hattempt rule) hd' hr fun d'' hd'' => ?_
    rw [← hd''] at hr
    rw [descendBy_eq hr, if_pos hconclusion]

/-- Backward search proves what is known, and what one rule with the goal in view concludes from it,
unless no level at all may be opened. -/
lemma success_backwardSearch_iff : (backwardSearch c goal s).success = true ↔
    0 ≤ c.maxDepth ∧
      (s.knowledge.contains goal = true ∨ ConcludedAtOnce c goal s.knowledge) := by
  have hsuccess : (backwardSearch c goal s).success =
      (descend c (c.maxDepth + 1).toNat goal { state := s }).1 := rfl
  rw [hsuccess]
  constructor
  · intro h
    have hattempt : Attempt _ _ (descend c (c.maxDepth + 1).toNat goal { state := s }) :=
      descend_attempt
    refine ⟨?_, (hattempt.1 h).2.2⟩
    by_contra hdepth
    have hnone : (c.maxDepth + 1).toNat = 0 := by omega
    simp [hnone, descend] at h
  · rintro ⟨hdepth, h⟩
    have hsome : (c.maxDepth + 1).toNat = c.maxDepth.toNat + 1 := by omega
    rw [hsome]
    exact success_descend rfl h

end AnnealProver
