import AnnealProver.Proofs.Matching
import AnnealProver.Proofs.Strategies

/-!
# What more rounds change

Forward search is given a number of rounds, and there are four ways in which it ends: the goal is
known, a round reaches it, four rounds in a row bring nothing new, or the rounds run out.  Only the
last one looks at the number.  So a search that **settles**, by success or with rounds to spare,
comes to the very same result with any larger number (`forwardRounds_add_of_settled`).  One that
runs out of rounds is prolonged: with more rounds it begins with the same steps
(`forwardRounds_prolongs`).

An idle round leaves the state as it was, so the next one is idle too, and a search that has had one
gives up three rounds later (`forwardRounds_idle`).
-/

namespace AnnealProver

variable {c : SearchConfig} {goal : Formula} {s t : ProofState}
  {rounds more stalled explored : ℕ}

/-! ## One round -/

/-- How a search goes on from its next round. -/
lemma forwardRounds_succ :
    forwardRounds c goal (rounds + 1) stalled s explored =
      if s.knowledge.contains goal then ⟨true, { s with status := .success }, explored + 1, []⟩
      else if (c.round goal s).reached then
        ⟨true, { (c.round goal s).state with status := .success }, explored + 1, []⟩
      else if (c.round goal s).progress then
        forwardRounds c goal rounds 0 (c.round goal s).state (explored + 1)
      else if stalled < 3 then
        forwardRounds c goal rounds (stalled + 1) (c.round goal s).state (explored + 1)
      else ⟨false, { (c.round goal s).state with status := .failed }, explored + 1, []⟩ := rfl

/-- Once nothing new can be taken up, the state stays as it is, and the search goes on until its
fourth idle round or until the rounds run out. -/
lemma forwardRounds_stuck (hstalled : stalled ≤ 3) (hnew : s.knowledge.contains goal = false)
    (hidle : ∀ r ∈ c.taken goal s, s.knowledge.contains r.conclusion = true) :
    forwardRounds c goal rounds stalled s explored =
      ⟨false, { s with status := .failed }, explored + min rounds (4 - stalled), []⟩ := by
  have hround : c.round goal s = ⟨s, false, false⟩ := takeUp_of_known hidle
  induction rounds generalizing stalled explored with
  | zero => simp [forwardRounds]
  | succ rounds ih =>
      rw [forwardRounds_succ, hnew, hround]
      simp only [Bool.false_eq_true, if_false]
      split_ifs with hearly
      · have hcount : explored + 1 + min rounds (4 - (stalled + 1)) =
            explored + min (rounds + 1) (4 - stalled) := by omega
        rw [ih (by omega), hcount]
      · have hcount : explored + 1 = explored + min (rounds + 1) (4 - stalled) := by omega
        rw [hcount]

/-- With enough rounds left such a search gives up in its fourth idle round. -/
lemma forwardRounds_idle (left more : ℕ) (hstalled : stalled + left = 3)
    (hnew : s.knowledge.contains goal = false)
    (hidle : ∀ r ∈ c.taken goal s, s.knowledge.contains r.conclusion = true) :
    forwardRounds c goal (left + 1 + more) stalled s explored =
      ⟨false, { s with status := .failed }, explored + (left + 1), []⟩ := by
  have hcount : min (left + 1 + more) (4 - stalled) = left + 1 := by omega
  rw [forwardRounds_stuck (by omega) hnew hidle, hcount]

/-! ## Searches that settle -/

/-- The search succeeded, or it stopped before that many rounds. -/
def SearchResult.Settles (result : SearchResult) (limit : ℤ) : Prop :=
  result.success = true ∨ (result.explored : ℤ) < limit

/-- **More rounds do not matter to a search that settles.** -/
lemma forwardRounds_add_of_settled
    (h : (forwardRounds c goal rounds stalled s explored).Settles (explored + rounds)) :
    forwardRounds c goal (rounds + more) stalled s explored =
      forwardRounds c goal rounds stalled s explored := by
  induction rounds generalizing stalled s explored with
  | zero => simp [SearchResult.Settles, forwardRounds] at h
  | succ rounds ih =>
      have hlimit : (explored : ℤ) + (rounds + 1 : ℕ) = (explored + 1 : ℕ) + rounds := by omega
      rw [hlimit, forwardRounds_succ] at h
      rw [Nat.add_right_comm, forwardRounds_succ, forwardRounds_succ]
      split_ifs at h ⊢ with hknown hreached hprogress hstalled
      · rfl
      · rfl
      · exact ih h
      · exact ih h
      · rfl

/-! ## Searches that run out of rounds -/

lemma SearchStep.steps_prefix (h : SearchStep c s t) : s.steps <+: t.steps := by
  cases h with
  | record => exact List.prefix_append _ _
  | judge => exact List.prefix_rfl

lemma SearchRun.steps_prefix (h : SearchRun c s t) : s.steps <+: t.steps := by
  induction h with
  | refl => exact List.prefix_rfl
  | tail _ hstep ih => exact ih.trans hstep.steps_prefix

lemma explored_le_forwardRounds :
    explored ≤ (forwardRounds c goal rounds stalled s explored).explored := by
  induction rounds generalizing stalled s explored with
  | zero => exact le_rfl
  | succ rounds ih =>
      rw [forwardRounds_succ]
      split_ifs
      · exact Nat.le_succ _
      · exact Nat.le_succ _
      · exact (Nat.le_succ _).trans ih
      · exact (Nat.le_succ _).trans ih
      · exact Nat.le_succ _

/-- The second result has all steps of the first, before any others, and counts no fewer rounds. -/
structure SearchResult.Prolongs (long short : SearchResult) : Prop where
  steps : short.state.steps <+: long.state.steps
  explored : short.explored ≤ long.explored

lemma SearchResult.Prolongs.refl (result : SearchResult) : result.Prolongs result :=
  ⟨List.prefix_rfl, le_rfl⟩

lemma forwardRounds_prolongs :
    (forwardRounds c goal (rounds + more) stalled s explored).Prolongs
      (forwardRounds c goal rounds stalled s explored) := by
  induction rounds generalizing stalled s explored with
  | zero =>
      have hsteps : s.steps <+: (forwardRounds c goal more stalled s explored).state.steps :=
        forwardRounds_honest.run.steps_prefix
      rw [Nat.zero_add]
      exact ⟨hsteps, explored_le_forwardRounds⟩
  | succ rounds ih =>
      rw [Nat.add_right_comm, forwardRounds_succ, forwardRounds_succ]
      split_ifs
      · exact .refl _
      · exact .refl _
      · exact ih
      · exact ih
      · exact .refl _

/-! ## The whole search -/

/-- Forward search is over before its first round, whatever number of rounds it is given, or it
consists of its rounds. -/
lemma prove_forward_cases (axioms : List Formula) (goal : Formula) (c : SearchConfig) :
    (∃ result, ∀ n, prove axioms goal { c with strategy := .forward, maxSteps := n } = result) ∨
    ∀ n, prove axioms goal { c with strategy := .forward, maxSteps := n } =
      forwardRounds c goal n.toNat 0 (ProofState.start axioms goal) 0 := by
  simp only [prove]
  split_ifs
  · exact Or.inl ⟨_, fun n => rfl⟩
  · exact Or.inl ⟨_, fun n => rfl⟩
  · exact Or.inr fun n => forwardRounds_limits

/-- **Forward search is stable under larger budgets.**  A search that succeeds within a number of
rounds, or that stops before it has used all of them, comes to the same result with any larger
number: the same verdict, the same state and the same count of rounds.  So success is never lost by
allowing more rounds, and to give up early is final.  In any case the steps of the shorter search
are the first steps of the longer one. -/
theorem forward_stable_under_budget (axioms : List Formula) (goal : Formula) (c : SearchConfig)
    {n m : ℤ} (hnm : n ≤ m) :
    let short := prove axioms goal { c with strategy := .forward, maxSteps := n }
    let long := prove axioms goal { c with strategy := .forward, maxSteps := m }
    (short.Settles n → long = short) ∧
    (short.success = true → long.success = true) ∧
    (short.success = false → (short.explored : ℤ) < n → long.success = false) ∧
    short.state.steps <+: long.state.steps ∧ short.explored ≤ long.explored := by
  intro short long
  have hboth : (short.Settles n → long = short) ∧ long.Prolongs short := by
    rcases prove_forward_cases axioms goal c with ⟨result, hresult⟩ | hrounds
    · have hshort : short = result := hresult n
      have hlong : long = result := hresult m
      rw [hlong, hshort]
      exact ⟨fun _ => rfl, .refl result⟩
    · have hshort : short = forwardRounds c goal n.toNat 0 (.start axioms goal) 0 := hrounds n
      have hlong : long = forwardRounds c goal m.toNat 0 (.start axioms goal) 0 := hrounds m
      obtain ⟨more, hmore⟩ := Nat.exists_eq_add_of_le (Int.toNat_le_toNat hnm)
      rw [hlong, hshort, hmore]
      refine ⟨fun h => forwardRounds_add_of_settled (h.imp_right fun hspare => ?_),
        forwardRounds_prolongs⟩
      omega
  obtain ⟨hstable, hprolongs⟩ := hboth
  refine ⟨hstable, fun hsuccess => ?_, fun hfailed hspare => ?_, hprolongs.steps,
    hprolongs.explored⟩
  · rw [hstable (Or.inl hsuccess), hsuccess]
  · rw [hstable (Or.inr hspare), hfailed]

/-- From `P` alone no rule draws anything, so a search for `Q` gives up in its fourth round, and
does so with a hundred rounds as with five. -/
theorem forward_stable_under_budget_idle :
    let c : SearchConfig := { checksSemantics := false }
    let short := prove [.var "P"] (.var "Q") { c with strategy := .forward, maxSteps := 5 }
    (5 : ℤ) ≤ 100 ∧ short.explored = 4 ∧
      prove [.var "P"] (.var "Q") { c with strategy := .forward, maxSteps := 100 } = short := by
  intro c short
  have hnone : Rule.applyAll (ProofState.start [.var "P"] (.var "Q")).knowledge none [] = [] := rfl
  have hexplored : short.explored = 4 := by
    have hshort : short = forwardRounds c (.var "Q") 5 0 (.start [.var "P"] (.var "Q")) 0 :=
      forwardRounds_limits
    rw [hshort, forwardRounds_idle 3 1 rfl rfl]
    intro r hr
    have := mem_applyAll_of_mem_taken hr
    rw [hnone] at this
    cases this
  have hspare : short.Settles 5 := by
    right
    rw [hexplored]
    decide
  exact ⟨by decide, hexplored,
    (forward_stable_under_budget [.var "P"] (.var "Q") c (by decide)).1 hspare⟩

end AnnealProver
