import AnnealProver.Proofs.Budgets

/-!
# What a search reports

**Backward search is one look through the inferences.**  Every inference has its premises in the
knowledge base, so the call that would search for a missing premise is never made, and neither the
visited goals nor the depth matter.  The whole search is a `find?` over what the rules allow with
the goal in view (`backwardSearch_eq`).

**A result says three times what came out**: by its verdict, by the status of its state, and by the
state's knowledge.  `SearchResult.Reports` says that the three agree, up to which status stands for
failure.  Recording the goal settles the status on the way, and each strategy has its own ways out
without the goal.  Forward search marks all of them as failed (`forwardRounds_reports`); backward
search marks none, and leaves the status that it found (`backwardSearch_reports`).
-/

namespace AnnealProver

variable {c : SearchConfig} {goal : Formula} {s : ProofState}

/-! ## Backward search without its recursion -/

section Loops

variable {α β σ : Type} {step : β → σ → Bool × σ} {p : β → Bool} {done : β → σ} {s : σ}

/-- Where a failure changes nothing, to go on until a step succeeds is to look for one that does. -/
lemma firstSuccess_eq_find? {bs : List β}
    (h : ∀ b ∈ bs, step b s = if p b then (true, done b) else (false, s)) :
    firstSuccess step bs s = (bs.find? p).elim (false, s) fun b => (true, done b) := by
  induction bs with
  | nil => rfl
  | cons b bs ih =>
      rw [List.forall_mem_cons] at h
      rw [firstSuccess, h.1]
      cases hb : p b with
      | true => simp [hb]
      | false => simpa [hb] using ih h.2

/-- The same for a loop in a loop, where the inner one goes through what the state allows. -/
lemma firstSuccess_eq_find?_flatMap {f : α → σ → List β} {as : List α}
    (h : ∀ a ∈ as, ∀ b ∈ f a s, step b s = if p b then (true, done b) else (false, s)) :
    firstSuccess (fun a s => firstSuccess step (f a s) s) as s =
      ((as.flatMap fun a => f a s).find? p).elim (false, s) fun b => (true, done b) := by
  induction as with
  | nil => rfl
  | cons a as ih =>
      rw [List.forall_mem_cons] at h
      rw [firstSuccess, firstSuccess_eq_find? h.1, List.flatMap_cons, List.find?_append]
      cases hfound : (f a s).find? p with
      | none => simpa using ih h.2
      | some b => simp

end Loops

/-- The inference that backward search takes: the first one that concludes the goal. -/
def SearchConfig.direct? (c : SearchConfig) (goal : Formula) (kb : FormulaSet) : Option Inference :=
  (Rule.applyAll kb (some goal) c.excluded).find? fun r => r.conclusion.alike goal

lemma isSome_direct?_iff {kb : FormulaSet} :
    (c.direct? goal kb).isSome = true ↔ ConcludedAtOnce c goal kb := by
  simp only [SearchConfig.direct?, ConcludedAtOnce, Rule.applyAll, List.find?_isSome,
    List.mem_flatMap]
  constructor
  · rintro ⟨r, ⟨rule, hrule, hr⟩, hgoal⟩
    exact ⟨rule, hrule, r, hr, hgoal⟩
  · rintro ⟨rule, hrule, r, hr, hgoal⟩
    exact ⟨r, ⟨rule, hrule, hr⟩, hgoal⟩

/-- **Backward search makes one call**: a goal that is new is concluded by one inference, whose
premises are all known, or not at all.  Nothing else is looked at, as long as the depth allows the
call itself. -/
lemma backwardSearch_eq (hdepth : 0 ≤ c.maxDepth) (hnew : s.knowledge.contains goal = false) :
    backwardSearch c goal s = ⟨(c.direct? goal s.knowledge).isSome,
      (c.direct? goal s.knowledge).elim s fun r => s.record r goal, 1, []⟩ := by
  have hfuel : (c.maxDepth + 1).toNat = c.maxDepth.toNat + 1 := by omega
  rw [backwardSearch, hfuel, descend_eq rfl hnew, firstSuccess_eq_find?_flatMap
    (fun rule _ r hr => descendBy_eq hr)]
  have hdirect : ((Rule.allBut c.excluded).flatMap fun rule => rule.apply s.knowledge
      (some goal)).find? (fun r => r.conclusion.alike goal) = c.direct? goal s.knowledge := rfl
  rw [hdirect]
  cases c.direct? goal s.knowledge with
  | none => rfl
  | some r => rfl

/-- A search that may not make a single call fails on the spot. -/
lemma backwardSearch_of_depth_neg (hdepth : c.maxDepth < 0) :
    backwardSearch c goal s = ⟨false, s, 1, []⟩ := by
  have hfuel : (c.maxDepth + 1).toNat = 0 := by omega
  rw [backwardSearch, hfuel]
  rfl

/-! ### From the axioms -/

/-- In the beginning the set of the axioms is known. -/
lemma knowledge_start (axioms : List Formula) (goal : Formula) :
    (ProofState.start axioms goal).knowledge = .ofList axioms :=
  OrderedSet.insertAll_toList _

lemma contains_axioms_iff {axioms : List Formula} {f : Formula} :
    (.ofList axioms : FormulaSet).contains f = true ↔ ∃ a ∈ axioms, a.alike f = true := by
  rw [FormulaSet.contains_ofList, Formula.isAmong, List.any_eq_true]

/-- With the check passed or left out, a goal that is an axiom is found at once, and for any other
the strategy begins. -/
lemma prove_eq_of_checked {axioms : List Formula}
    (hchecked : c.checksSemantics = true → Formula.entails axioms goal = true) :
    prove axioms goal c =
      if (ProofState.start axioms goal).knowledge.contains goal then
        ⟨true, { ProofState.start axioms goal with status := .success }, 0, []⟩
      else match c.strategy with
        | .forward => forwardSearch c goal (.start axioms goal) 0
        | .backward => backwardSearch c goal (.start axioms goal)
        | .bidirectional => bidirectionalSearch c goal (.start axioms goal) := by
  have hpassed : (c.checksSemantics && !Formula.entails axioms goal) = false := by
    cases hchecks : c.checksSemantics with
    | true => simp [hchecked hchecks]
    | false => rfl
  rw [prove, hpassed]
  rfl

/-- Backward search for anything but an axiom is that one call. -/
lemma prove_backward_eq {axioms : List Formula} (hbackward : c.strategy = .backward)
    (hdepth : 0 ≤ c.maxDepth)
    (hchecked : c.checksSemantics = true → Formula.entails axioms goal = true) :
    prove axioms goal c =
      if (.ofList axioms : FormulaSet).contains goal then
        ⟨true, { ProofState.start axioms goal with status := .success }, 0, []⟩
      else ⟨(c.direct? goal (.ofList axioms)).isSome,
        (c.direct? goal (.ofList axioms)).elim (.start axioms goal)
          fun r => (ProofState.start axioms goal).record r goal, 1, []⟩ := by
  have hkb := knowledge_start axioms goal
  rw [prove_eq_of_checked hchecked, hbackward, ← hkb]
  split_ifs with hknown
  · rfl
  · exact backwardSearch_eq hdepth (by simpa using hknown)

/-- **What backward search can prove.**  With any axioms, goal and configuration whose depth is not
negative, once the check by truth table is passed or left out: no premise is ever searched for, so
the count is zero for an axiom and one for any other goal, and the depth makes no difference; at
most one step is added; and the search succeeds if and only if the goal is alike to an axiom or a
rule that is not excluded concludes it from the set of the axioms. -/
theorem backward_is_one_inference (axioms : List Formula) (goal : Formula) (c : SearchConfig)
    (hbackward : c.strategy = .backward) (hdepth : 0 ≤ c.maxDepth)
    (hchecked : c.checksSemantics = true → Formula.entails axioms goal = true) :
    let result := prove axioms goal c
    let kb : FormulaSet := .ofList axioms
    result.explored = (if kb.contains goal then 0 else 1) ∧
    (∀ depth, 0 ≤ depth → prove axioms goal { c with maxDepth := depth } = result) ∧
    (∃ added : List Step, added.length ≤ 1 ∧
      result.state.steps = (ProofState.start axioms goal).steps ++ added) ∧
    (result.success = true ↔ (∃ a ∈ axioms, a.alike goal = true) ∨
      ∃ rule : Rule, rule.name ∉ c.excluded ∧
        ∃ r ∈ rule.apply kb (some goal), r.conclusion.alike goal = true) := by
  intro result kb
  have hresult : result = _ := prove_backward_eq hbackward hdepth hchecked
  have hdepths : ∀ depth, 0 ≤ depth → prove axioms goal { c with maxDepth := depth } = result := by
    intro depth hdepth'
    have hother : prove axioms goal { c with maxDepth := depth } = _ :=
      prove_backward_eq hbackward hdepth' hchecked
    rw [hother, hresult]
    rfl
  have hrules : (c.direct? goal kb).isSome = true ↔ ∃ rule : Rule, rule.name ∉ c.excluded ∧
      ∃ r ∈ rule.apply kb (some goal), r.conclusion.alike goal = true := by
    rw [isSome_direct?_iff]
    simp only [ConcludedAtOnce, Rule.mem_allBut]
  rw [← hrules, ← contains_axioms_iff]
  refine ⟨?_, hdepths, ?_, ?_⟩
  · rw [hresult]
    split_ifs <;> rfl
  · rw [hresult]
    split_ifs with hknown
    · exact ⟨[], by simp, by simp⟩
    · cases c.direct? goal kb with
      | none => exact ⟨[], by simp, by simp⟩
      | some r => exact ⟨[_], by simp, ProofState.record_steps ..⟩
  · rw [hresult]
    split_ifs with hknown
    · simp [kb, hknown]
    · simp [kb, hknown]

/-- One application of modus ponens, with all defaults but the strategy. -/
theorem backward_is_one_inference_ponens :
    let p := Formula.var "P"
    let q := Formula.var "Q"
    let c : SearchConfig := { strategy := .backward }
    c.strategy = .backward ∧ 0 ≤ c.maxDepth ∧ Formula.entails [p, .impl p q] q = true ∧
      (prove [p, .impl p q] q c).explored = 1 ∧ (prove [p, .impl p q] q c).success = true := by
  intro p q c
  have hentails : Formula.entails [p, .impl p q] q = true := by
    refine Formula.entails_iff.2 fun v hv => ?_
    simp only [List.forall_mem_cons, Formula.eval] at hv
    simpa [hv.1] using hv.2.1
  obtain ⟨hexplored, -, -, hsuccess⟩ :=
    backward_is_one_inference [p, .impl p q] q c rfl (by decide) fun _ => hentails
  refine ⟨rfl, by decide, hentails, hexplored, hsuccess.2 (Or.inr ⟨.modusPonens, by decide, ?_⟩)⟩
  exact ⟨⟨.modusPonens, [p, .impl p q], q, ""⟩, List.mem_singleton.2 rfl, rfl⟩

/-! ## Verdict, status and knowledge -/

/-- The verdict, the status and the knowledge of the state agree, where `failure` is the status of a
search without success. -/
structure SearchResult.Reports (goal : Formula) (failure : Status) (result : SearchResult) :
    Prop where
  known : result.state.knowledge.contains goal = result.success
  status : result.state.status = if result.success then .success else failure

lemma SearchResult.Reports.of_success {failure : Status} {t : ProofState} {explored : ℕ}
    {path : List String} (hknown : t.knowledge.contains goal = true) :
    SearchResult.Reports goal failure ⟨true, { t with status := .success }, explored, path⟩ :=
  ⟨hknown, rfl⟩

lemma SearchResult.Reports.of_failure {t : ProofState} {explored : ℕ} {path : List String}
    (hnew : t.knowledge.contains goal = false) :
    SearchResult.Reports goal .failed ⟨false, { t with status := .failed }, explored, path⟩ :=
  ⟨hnew, rfl⟩

/-- A round that does not reach the goal does not come to know it in another way. -/
lemma contains_round_eq_false (hnew : s.knowledge.contains goal = false)
    (hreached : (c.round goal s).reached = false) :
    (c.round goal s).state.knowledge.contains goal = false := by
  rw [← Bool.not_eq_true] at hreached ⊢
  intro hknown
  rcases contains_or_exists_of_contains_round hknown with hold | htaken
  · simp [hnew] at hold
  · exact hreached ((reached_takeUp_iff hnew).2 htaken)

/-- Forward search marks every way out, and it never knows the goal when it fails. -/
lemma forwardRounds_reports {rounds stalled explored : ℕ}
    (hnew : s.knowledge.contains goal = false) :
    (forwardRounds c goal rounds stalled s explored).Reports goal .failed := by
  induction rounds generalizing stalled s explored with
  | zero => exact .of_failure hnew
  | succ rounds ih =>
      rw [forwardRounds_succ, hnew]
      simp only [Bool.false_eq_true, if_false]
      by_cases hreached : (c.round goal s).reached = true
      · rw [if_pos hreached]
        exact .of_success (takeUp_reached hreached)
      · rw [if_neg hreached]
        rw [Bool.not_eq_true] at hreached
        have hstill := contains_round_eq_false hnew hreached
        split_ifs
        · exact ih hstill
        · exact ih hstill
        · exact .of_failure hstill

/-- Recording the goal of a state marks it as successful. -/
lemma status_record_goal {r : Inference} (hgoal : s.goal = goal)
    (hknown : (s.record r goal).knowledge.contains goal = true) :
    (s.record r goal).status = .success := by
  subst hgoal
  exact if_pos hknown

/-- Backward search leaves the status as it was when it fails. -/
lemma backwardSearch_reports (hgoal : s.goal = goal) (hnew : s.knowledge.contains goal = false) :
    (backwardSearch c goal s).Reports goal s.status := by
  by_cases hdepth : 0 ≤ c.maxDepth
  · rw [backwardSearch_eq hdepth hnew]
    cases c.direct? goal s.knowledge with
    | none => exact ⟨hnew, rfl⟩
    | some r =>
        have hknown := ProofState.contains_record (r := r) hnew goal.alike_refl
        exact ⟨hknown, status_record_goal hgoal hknown⟩
  · rw [backwardSearch_of_depth_neg (by omega)]
    exact ⟨hnew, rfl⟩

/-- The status of a search without success: still open if it was a search backward that the truth
table let begin, and failed in every other case. -/
def SearchConfig.failure (c : SearchConfig) (axioms : List Formula) (goal : Formula) : Status :=
  if c.strategy = .backward ∧ !(c.checksSemantics && !Formula.entails axioms goal) then .inProgress
  else .failed

lemma SearchConfig.failure_eq_inProgress_iff {axioms : List Formula} :
    c.failure axioms goal = .inProgress ↔
      c.strategy = .backward ∧ (c.checksSemantics = true → Entails axioms goal) := by
  have hadmits : (!(c.checksSemantics && !Formula.entails axioms goal)) = true ↔
      (c.checksSemantics = true → Entails axioms goal) := by
    rw [← Formula.entails_iff]
    cases c.checksSemantics <;> simp
  rw [← hadmits, failure]
  split_ifs with h
  · exact iff_of_true rfl h
  · exact iff_of_false (by simp) h

lemma SearchConfig.failure_eq_failed_iff {axioms : List Formula} :
    c.failure axioms goal = .failed ↔
      c.strategy ≠ .backward ∨ (c.checksSemantics = true ∧ ¬ Entails axioms goal) := by
  have hother : c.failure axioms goal = .failed ↔ ¬ c.failure axioms goal = .inProgress := by
    rw [failure]
    split_ifs <;> simp
  rw [hother, failure_eq_inProgress_iff, not_and_or, Classical.not_imp]

/-- Whatever the strategy, the result reports what came out. -/
lemma prove_reports (axioms : List Formula) (goal : Formula) (c : SearchConfig) :
    (prove axioms goal c).Reports goal (c.failure axioms goal) := by
  rw [prove]
  by_cases hknown : (ProofState.start axioms goal).knowledge.contains goal = true
  · simp only [hknown, if_true]
    exact .of_success hknown
  simp only [hknown, Bool.false_eq_true, if_false]
  rw [Bool.not_eq_true] at hknown
  by_cases hrefused : (c.checksSemantics && !Formula.entails axioms goal) = true
  · have hfailure : c.failure axioms goal = .failed := by simp [SearchConfig.failure, hrefused]
    rw [if_pos hrefused, hfailure]
    exact .of_failure hknown
  rw [if_neg hrefused]
  cases hstrategy : c.strategy with
  | forward =>
      have hfailure : c.failure axioms goal = .failed := by simp [SearchConfig.failure, hstrategy]
      rw [hfailure]
      exact forwardRounds_reports hknown
  | backward =>
      have hfailure : c.failure axioms goal = .inProgress := by
        simp [SearchConfig.failure, hstrategy, hrefused]
      rw [hfailure]
      exact backwardSearch_reports rfl hknown
  | bidirectional =>
      have hfailure : c.failure axioms goal = .failed := by simp [SearchConfig.failure, hstrategy]
      obtain ⟨passed, -, heq⟩ := exists_bidirectionalSearch_eq c goal (.start axioms goal)
      simp only [heq, hfailure]
      exact forwardRounds_reports hknown

/-- **The status says what came out, but for failures of backward search.**  With any axioms, goal
and configuration the verdict is success exactly when the status is, and exactly when the goal is
among what the search knows in the end.  Without success the status is failed, unless the search
went backward and was not turned down by the truth table: then it stays in progress. -/
theorem status_matches_verdict (axioms : List Formula) (goal : Formula) (c : SearchConfig) :
    let result := prove axioms goal c
    (result.success = true ↔ result.state.status = .success) ∧
    (result.success = true ↔ result.state.knowledge.contains goal = true) ∧
    (result.success = false →
      (result.state.status = .inProgress ↔
        c.strategy = .backward ∧ (c.checksSemantics = true → Entails axioms goal)) ∧
      (result.state.status = .failed ↔
        c.strategy ≠ .backward ∨ (c.checksSemantics = true ∧ ¬ Entails axioms goal))) := by
  intro result
  have hreports : result.Reports goal (c.failure axioms goal) := prove_reports axioms goal c
  have hother : c.failure axioms goal ≠ .success := by
    unfold SearchConfig.failure
    split_ifs <;> simp
  refine ⟨?_, ?_, fun hfailed => ?_⟩
  · cases hsuccess : result.success <;> simp [hreports.status, hsuccess, hother]
  · rw [hreports.known]
  · rw [hreports.status, hfailed]
    exact ⟨SearchConfig.failure_eq_inProgress_iff, SearchConfig.failure_eq_failed_iff⟩

/-- **A search backward that fails is left in progress**, here one for what takes two steps. -/
theorem backward_failure_left_open :
    let p := Formula.var "P"
    let q := Formula.var "Q"
    let r := Formula.var "R"
    let result := prove [p, .impl p q, .impl q r] r { strategy := .backward }
    result.success = false ∧ result.state.status ≠ .failed ∧
      result.state.status = .inProgress := by
  intro p q r result
  have hentails : Formula.entails [p, .impl p q, .impl q r] r = true := by
    refine Formula.entails_iff.2 fun v hv => ?_
    simp only [List.forall_mem_cons, Formula.eval, Bool.or_eq_true, Bool.not_eq_true'] at hv
    grind
  have hresult : result = _ := prove_backward_eq rfl (by decide) fun _ => hentails
  rw [hresult]
  decide

end AnnealProver
