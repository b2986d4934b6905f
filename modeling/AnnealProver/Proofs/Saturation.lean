import AnnealProver.Proofs.Outcomes

/-!
# What giving up means

Forward search gives up when four rounds in a row bring nothing new.  A round looks at the most
wanted inferences only, as many as its width, and it is this list that it compares with what is
known.  An inference that is known keeps its place in the list.  So a round may be idle although
something new could be concluded: the new inference need only be ranked behind enough known ones.

A state is **exhausted** when the goal is not known and the next round would be idle.  Such a state
stays as it is, and the search gives up in it (`forwardRounds_of_exhausted`); there is no other way
to give up before the rounds run out (`exists_exhausted_of_early`).  What a search that gives up has
drawn all of is therefore the list up to its width, and the rest only if nothing new is in it
(`gives_up_iff_exhausted`).
-/

namespace AnnealProver

variable {c : SearchConfig} {goal : Formula} {s : ProofState} {n rounds explored : ℕ}

/-! ## Exhausted states -/

/-- The goal is not known, and all that the next round looks at is. -/
structure SearchConfig.Exhausted (c : SearchConfig) (goal : Formula) (s : ProofState) : Prop where
  unproved : s.knowledge.contains goal = false
  idle : ∀ r ∈ c.taken goal s, s.knowledge.contains r.conclusion = true

/-- The state after so many rounds. -/
def SearchConfig.after (c : SearchConfig) (goal : Formula) (n : ℕ) (s : ProofState) : ProofState :=
  (fun s => (c.round goal s).state)^[n] s

lemma after_succ : c.after goal (n + 1) s = c.after goal n (c.round goal s).state :=
  Function.iterate_succ_apply _ n s

/-- Rounds do not forget. -/
lemma contains_after {f : Formula} (h : s.knowledge.contains f = true) :
    (c.after goal n s).knowledge.contains f = true := by
  induction n generalizing s with
  | zero => exact h
  | succ n ih =>
      rw [after_succ]
      exact ih (contains_round h)

/-- Where a later state is exhausted, the goal is not known yet. -/
lemma SearchConfig.Exhausted.unproved_before (h : c.Exhausted goal (c.after goal n s)) :
    s.knowledge.contains goal = false := by
  by_contra hknown
  have hlater : (c.after goal n s).knowledge.contains goal = true :=
    contains_after (Bool.not_eq_false _ ▸ hknown)
  simp [h.unproved] at hlater

lemma SearchConfig.Exhausted.round_eq (h : c.Exhausted goal s) :
    c.round goal s = ⟨s, false, false⟩ :=
  takeUp_of_known h.idle

/-- An exhausted state stays as it is. -/
lemma SearchConfig.Exhausted.after_eq (h : c.Exhausted goal s) : c.after goal n s = s := by
  have hfixed : (fun s => (c.round goal s).state) s = s := by simp [h.round_eq]
  exact Function.iterate_fixed hfixed n

/-- A round without anything new is what exhaustion means. -/
lemma exhausted_of_idle (hnew : s.knowledge.contains goal = false)
    (hidle : (c.round goal s).progress = false) : c.Exhausted goal s := by
  have hstate : (c.round goal s).state = s := (takeUp_eq_self hidle).1
  have hreached : (c.round goal s).reached = false := by
    by_contra hreached
    have hknown := takeUp_reached (Bool.not_eq_false _ ▸ hreached)
    rw [← SearchConfig.round, hstate, hnew] at hknown
    simp at hknown
  refine ⟨hnew, fun r hr => ?_⟩
  have hknown := contains_takeUp hreached r hr
  rwa [← SearchConfig.round, hstate] at hknown

/-- What the next round makes of a state in which the goal is not known. -/
lemma round_cases (hnew : s.knowledge.contains goal = false) :
    c.Exhausted goal s ∨ (c.round goal s).reached = true ∨
      ((c.round goal s).reached = false ∧ (c.round goal s).progress = true) := by
  cases hprogress : (c.round goal s).progress with
  | false => exact Or.inl (exhausted_of_idle hnew hprogress)
  | true =>
      cases hreached : (c.round goal s).reached with
      | false => exact Or.inr (Or.inr ⟨rfl, rfl⟩)
      | true => exact Or.inr (Or.inl rfl)

/-! ## Giving up -/

lemma SearchConfig.Exhausted.forwardRounds_eq (h : c.Exhausted goal s) :
    forwardRounds c goal rounds 0 s explored =
      ⟨false, { s with status := .failed }, explored + min rounds 4, []⟩ :=
  forwardRounds_stuck (Nat.zero_le 3) h.unproved h.idle

lemma forwardRounds_of_progress (hnew : s.knowledge.contains goal = false)
    (hreached : (c.round goal s).reached = false) (hprogress : (c.round goal s).progress = true) :
    forwardRounds c goal (rounds + 1) 0 s explored =
      forwardRounds c goal rounds 0 (c.round goal s).state (explored + 1) := by
  rw [forwardRounds_succ, hnew, hreached, hprogress]
  rfl

/-- A search that comes through an exhausted state with four rounds left gives up in it.  The state
may have been exhausted before, but then it was the same. -/
lemma forwardRounds_of_exhausted (h : c.Exhausted goal (c.after goal n s))
    (hrounds : n + 4 ≤ rounds) :
    ∃ m ≤ n, forwardRounds c goal rounds 0 s explored =
      ⟨false, { c.after goal n s with status := .failed }, explored + m + 4, []⟩ := by
  induction n generalizing s rounds explored with
  | zero =>
      have hs : c.Exhausted goal s := h
      refine ⟨0, le_rfl, ?_⟩
      rw [hs.forwardRounds_eq, hs.after_eq, Nat.min_eq_right (by omega), Nat.add_zero]
  | succ n ih =>
      rcases round_cases h.unproved_before with hs | hreached | ⟨hreached, hprogress⟩
      · refine ⟨0, Nat.zero_le _, ?_⟩
        rw [hs.forwardRounds_eq, hs.after_eq, Nat.min_eq_right (by omega), Nat.add_zero]
      · have hknown : (c.round goal s).state.knowledge.contains goal = true :=
          takeUp_reached hreached
        rw [after_succ] at h
        simp [h.unproved_before] at hknown
      · obtain ⟨rounds, rfl⟩ : ∃ k, rounds = k + 1 := ⟨rounds - 1, by omega⟩
        have hleft : n + 4 ≤ rounds := by omega
        rw [forwardRounds_of_progress h.unproved_before hreached hprogress, after_succ]
        rw [after_succ] at h
        have hrest : ∃ m ≤ n, forwardRounds c goal rounds 0 (c.round goal s).state (explored + 1) =
            _ := ih h hleft
        obtain ⟨m, hm, heq⟩ := hrest
        refine ⟨m + 1, by omega, ?_⟩
        rw [heq, Nat.add_right_comm explored 1 m, Nat.add_assoc explored m 1]

/-- A search that fails with rounds to spare came through an exhausted state. -/
lemma exists_exhausted_of_early (hnew : s.knowledge.contains goal = false)
    (hfailed : (forwardRounds c goal rounds 0 s explored).success = false)
    (hearly : (forwardRounds c goal rounds 0 s explored).explored < explored + rounds) :
    ∃ n, n + 4 < rounds ∧ c.Exhausted goal (c.after goal n s) := by
  induction rounds generalizing s explored with
  | zero => simp [forwardRounds] at hearly
  | succ rounds ih =>
      rcases round_cases hnew with hs | hreached | ⟨hreached, hprogress⟩
      · rw [hs.forwardRounds_eq] at hearly
        exact ⟨0, by simp at hearly; omega, hs⟩
      · rw [forwardRounds_succ, hnew, hreached] at hfailed
        simp at hfailed
      · rw [forwardRounds_of_progress hnew hreached hprogress] at hfailed hearly
        have hstill := contains_round_eq_false hnew hreached
        obtain ⟨n, hn, hexhausted⟩ := ih hstill hfailed (by omega)
        exact ⟨n + 1, by omega, by rwa [after_succ]⟩

/-! ## The whole search -/

section Whole

variable {axioms : List Formula} (hforward : c.strategy = .forward)
  (hchecked : c.checksSemantics = true → Formula.entails axioms goal = true)

include hforward hchecked

lemma prove_forward_eq (hnew : (ProofState.start axioms goal).knowledge.contains goal = false) :
    prove axioms goal c = forwardRounds c goal c.maxSteps.toNat 0 (.start axioms goal) 0 := by
  rw [prove_eq_of_checked hchecked, hnew, hforward]
  rfl

lemma prove_of_exhausted (h : c.Exhausted goal (c.after goal n (.start axioms goal)))
    (hsteps : n + 4 ≤ c.maxSteps) :
    ∃ m ≤ n, prove axioms goal c =
      ⟨false, { c.after goal n (.start axioms goal) with status := .failed }, m + 4, []⟩ := by
  have hrounds : n + 4 ≤ c.maxSteps.toNat := by omega
  obtain ⟨m, hm, heq⟩ := forwardRounds_of_exhausted h hrounds
  refine ⟨m, hm, ?_⟩
  rw [prove_forward_eq hforward hchecked h.unproved_before, heq, Nat.zero_add]

lemma exists_exhausted_of_prove (hfailed : (prove axioms goal c).success = false)
    (hearly : ((prove axioms goal c).explored : ℤ) < c.maxSteps) :
    ∃ n : ℕ, n + 4 < c.maxSteps ∧ c.Exhausted goal (c.after goal n (.start axioms goal)) := by
  have hnew : (ProofState.start axioms goal).knowledge.contains goal = false := by
    by_contra hknown
    rw [prove_eq_of_checked hchecked, if_pos (Bool.not_eq_false _ ▸ hknown)] at hfailed
    simp at hfailed
  rw [prove_forward_eq hforward hchecked hnew] at hfailed hearly
  obtain ⟨n, hn, hexhausted⟩ := exists_exhausted_of_early hnew hfailed (by omega)
  exact ⟨n, by omega, hexhausted⟩

end Whole

/-- With a width that is not negative a round looks at the first so many inferences. -/
lemma taken_eq_take (hwidth : 0 ≤ c.maxBranching) : c.taken goal s =
    (c.ranked goal (Rule.applyAll s.knowledge none c.excluded)).take c.maxBranching.toNat :=
  if_pos hwidth

/-- Once the first inferences of the ranking are dealt with, only those behind them are left. -/
lemma SearchConfig.forall_iff_forall_drop {p : Inference → Prop} {rs : List Inference}
    (htake : ∀ r ∈ (c.ranked goal rs).take n, p r) :
    (∀ r ∈ rs, p r) ↔ ∀ r ∈ (c.ranked goal rs).drop n, p r := by
  constructor
  · intro hall r hr
    exact hall r (mem_ranked.1 (List.mem_of_mem_drop hr))
  · intro hdrop r hr
    have hr : r ∈ c.ranked goal rs := mem_ranked.2 hr
    rw [← List.take_append_drop n (c.ranked goal rs), List.mem_append] at hr
    exact hr.elim (htake r) (hdrop r)

/-- **What giving up early means.**  Forward search, once the check by truth table is passed or left
out, fails with rounds to spare if and only if it comes, with more than four rounds left, to a state
in which the goal is not known and the most wanted inferences, as many as the width, are.  It ends
in such a state.  So all that could be concluded is known in the end if and only if nothing new is
ranked behind them, and that is so whenever there are no more inferences than the width. -/
theorem gives_up_iff_exhausted (axioms : List Formula) (goal : Formula) (c : SearchConfig)
    (hforward : c.strategy = .forward) (hwidth : 1 ≤ c.maxBranching)
    (hchecked : c.checksSemantics = true → Formula.entails axioms goal = true) :
    let result := prove axioms goal c
    let kb := result.state.knowledge
    let drawn := Rule.applyAll kb none c.excluded
    let ranked := c.ranked goal drawn
    (result.success = false ∧ (result.explored : ℤ) < c.maxSteps ↔
      ∃ n : ℕ, n + 4 < c.maxSteps ∧ c.Exhausted goal (c.after goal n (.start axioms goal))) ∧
    (result.success = false → (result.explored : ℤ) < c.maxSteps →
      (∀ r ∈ ranked.take c.maxBranching.toNat, kb.contains r.conclusion = true) ∧
      ((∀ r ∈ drawn, kb.contains r.conclusion = true) ↔
        ∀ r ∈ ranked.drop c.maxBranching.toNat, kb.contains r.conclusion = true) ∧
      ((drawn.length : ℤ) ≤ c.maxBranching → ∀ r ∈ drawn, kb.contains r.conclusion = true)) := by
  intro result kb drawn ranked
  constructor
  · constructor
    · rintro ⟨hfailed, hearly⟩
      exact exists_exhausted_of_prove hforward hchecked hfailed hearly
    · rintro ⟨n, hn, hexhausted⟩
      obtain ⟨m, hm, heq⟩ := prove_of_exhausted hforward hchecked hexhausted (by omega)
      have hresult : result = _ := heq
      rw [hresult]
      exact ⟨rfl, by simp only; omega⟩
  · intro hfailed hearly
    obtain ⟨n, hn, hexhausted⟩ := exists_exhausted_of_prove hforward hchecked hfailed hearly
    obtain ⟨m, -, heq⟩ := prove_of_exhausted hforward hchecked hexhausted (by omega)
    have hkb : kb = (c.after goal n (.start axioms goal)).knowledge := by
      simp only [kb, result, heq]
    have htake : ∀ r ∈ ranked.take c.maxBranching.toNat, kb.contains r.conclusion = true := by
      have hidle := hexhausted.idle
      rw [taken_eq_take (by omega), ← hkb] at hidle
      exact hidle
    have hsplit : (∀ r ∈ drawn, kb.contains r.conclusion = true) ↔
        ∀ r ∈ ranked.drop c.maxBranching.toNat, kb.contains r.conclusion = true :=
      SearchConfig.forall_iff_forall_drop htake
    refine ⟨htake, hsplit, fun hfits => hsplit.2 fun r hr => ?_⟩
    have hlength : ranked.length ≤ c.maxBranching.toNat := by
      simp only [ranked, SearchConfig.ranked, List.length_map, List.length_mergeSort]
      omega
    simp [List.drop_eq_nil_of_le hlength] at hr

/-! ## Giving up too early -/

/-- Without priorities an inference is wanted less than another only if the other one concludes the
goal. -/
lemma SearchConfig.score_lt_of_plain (hplain : c.priorities = ∅) (a b : Inference) :
    (c.score goal a).lt (c.score goal b) =
      (!a.conclusion.alike goal && b.conclusion.alike goal) := by
  have hpriority : ∀ rule, c.priority rule = .real 1.0 := by
    intro rule
    rw [priority, hplain]
    rfl
  simp only [score, hpriority]
  cases a.conclusion.alike goal <;> cases b.conclusion.alike goal <;> decide

/-- So inferences none of which concludes the goal keep their order. -/
lemma SearchConfig.ranked_of_plain {rs : List Inference} (hplain : c.priorities = ∅)
    (hother : rs.all (fun r => !r.conclusion.alike goal) = true) : c.ranked goal rs = rs := by
  refine ranked_of_pairwise (List.pairwise_of_forall_mem_list fun a _ b hb => ?_)
  have hb : b.conclusion.alike goal = false := by simpa using List.all_eq_true.1 hother b hb
  rw [score_lt_of_plain hplain, hb, Bool.and_false]

/-- A formula that implies eleven others, the last of which implies one more. -/
def crowd : List Formula :=
  .var "P" :: (["A", "B", "C", "D", "E", "F", "G", "H", "I", "J", "K"].map fun x =>
    .impl (.var "P") (.var x)) ++ [.impl (.var "K") (.var "L")]

/-- The crowd with the ten formulas that a first round takes up. -/
def crowded : ProofState :=
  (takeUp (.var "L") ((Rule.applyAll (.ofList crowd) none []).take 10) (.start crowd (.var "L"))
    false).state

lemma crowd_entails : Formula.entails crowd (.var "L") = true := by
  refine Formula.entails_iff.2 fun v hv => ?_
  have hp := hv (.var "P") (by simp [crowd])
  have hk := hv (.impl (.var "P") (.var "K")) (by simp [crowd])
  have hl := hv (.impl (.var "K") (.var "L")) (by simp [crowd])
  simp only [Formula.eval, Bool.or_eq_true, Bool.not_eq_true'] at hp hk hl
  grind [Formula.eval]

/-- With all defaults, a first round in which the goal cannot be concluded takes up ten inferences
in the order of the rules. -/
lemma after_one_of_plain {axioms : List Formula}
    (hother : (Rule.applyAll (.ofList axioms) none []).all
      (fun r => !r.conclusion.alike goal) = true) :
    ({} : SearchConfig).after goal 1 (.start axioms goal) =
      (takeUp goal ((Rule.applyAll (.ofList axioms) none []).take 10) (.start axioms goal)
        false).state := by
  have hplain : ({} : SearchConfig).ranked goal (Rule.applyAll (.ofList axioms) none []) =
      Rule.applyAll (.ofList axioms) none [] := SearchConfig.ranked_of_plain rfl hother
  rw [after_succ, SearchConfig.round, taken_eq_take (by decide), knowledge_start, hplain]
  rfl

lemma after_crowd : ({} : SearchConfig).after (.var "L") 1 (.start crowd (.var "L")) = crowded :=
  after_one_of_plain (by decide +kernel)

/-- In the second round the ten most wanted inferences are the ten of the first. -/
lemma crowd_exhausted :
    ({} : SearchConfig).Exhausted (.var "L")
      (({} : SearchConfig).after (.var "L") 1 (.start crowd (.var "L"))) := by
  have hplain : ({} : SearchConfig).ranked (.var "L") (Rule.applyAll crowded.knowledge none []) =
      Rule.applyAll crowded.knowledge none [] :=
    SearchConfig.ranked_of_plain rfl (by decide +kernel)
  have hknown : ((Rule.applyAll crowded.knowledge none []).take 10).all
      (fun r => crowded.knowledge.contains r.conclusion) = true := by decide +kernel
  rw [after_crowd]
  refine ⟨by decide +kernel, ?_⟩
  rw [taken_eq_take (by decide), hplain]
  exact List.all_eq_true.1 hknown

/-- With all defaults the search for `L` gives up, and the ten inferences it looked at last are
known. -/
theorem gives_up_iff_exhausted_crowd :
    let result := prove crowd (.var "L") {}
    let drawn := Rule.applyAll result.state.knowledge none []
    Formula.entails crowd (.var "L") = true ∧ result.success = false ∧
      (result.explored : ℤ) < ({} : SearchConfig).maxSteps ∧
      ∀ r ∈ (({} : SearchConfig).ranked (.var "L") drawn).take 10,
        result.state.knowledge.contains r.conclusion = true := by
  intro result drawn
  obtain ⟨hiff, hend⟩ :=
    gives_up_iff_exhausted crowd (.var "L") {} rfl (by decide) fun _ => crowd_entails
  obtain ⟨hfailed, hearly⟩ := hiff.2 ⟨1, by decide, crowd_exhausted⟩
  exact ⟨crowd_entails, hfailed, hearly, (hend hfailed hearly).1⟩

/-- **Giving up does not mean that nothing new can be concluded.**  With all defaults and most
rounds to spare the search for `L` gives up although modus ponens concludes `K`, and then `L`: ten
formulas that are known already are ranked before `K`. -/
theorem gives_up_unsaturated :
    let result := prove crowd (.var "L") {}
    result.success = false ∧ (result.explored : ℤ) < ({} : SearchConfig).maxSteps ∧
      ∃ r ∈ Rule.applyAll result.state.knowledge none [],
        r.rule = .modusPonens ∧ r.conclusion = .var "K" ∧
          result.state.knowledge.contains r.conclusion = false := by
  intro result
  obtain ⟨m, hm, heq⟩ := prove_of_exhausted rfl (fun _ => crowd_entails) crowd_exhausted (by decide)
  rw [after_crowd] at heq
  have hresult : result = _ := heq
  have hnew : (Rule.applyAll crowded.knowledge none []).any
      (fun r => r.rule = .modusPonens ∧ r.conclusion = .var "K" ∧
        crowded.knowledge.contains r.conclusion = false) = true := by decide +kernel
  obtain ⟨r, hr, hunknown⟩ := List.any_eq_true.1 hnew
  rw [hresult]
  refine ⟨rfl, ?_, r, hr, of_decide_eq_true hunknown⟩
  have hexplored : ((m + 4 : ℕ) : ℤ) < 100 := by omega
  exact hexplored

end AnnealProver
