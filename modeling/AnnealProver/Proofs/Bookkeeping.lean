import AnnealProver.Proofs.Forgetting

/-!
# The books of a proof

A proof state keeps three records beside each other: the numbered steps, the stack of open
assumptions, and what is known.  Numbers and levels are worked out anew from the lengths of these
lists whenever something is added, and closing an assumption renumbers nothing.  The records agree
all the same (`ProofState.InOrder`): steps and assumptions count from one without a gap, every open
assumption points at the step that made it, and nothing is known without a step.

Actions change a state in three ways: a step is written down (`InOrder.write`), an assumption is put
on the stack after its step (`InOrder.push`), or the latest one is taken off (`InOrder.discharge`).
Each keeps the records in order, so every action does (`InOrder.after`), and whole runs do.

A copy of a state is made by setting up a state anew, which adds the axioms once more if there are
no steps.  In a run there are none only if there are no axioms, so a copy is the same state
(`InOrder.clone_eq`).

Going back to a copy takes steps away again.  Still no step is left without the ones it was added
to: each has an action of the run behind it, carried out where just the steps before it were written
(`ProofState.Accounted`).
-/

namespace AnnealProver

variable {axioms : List Formula} {goal : Formula} {s : ProofState} {action : Action}

/-! ## Records in order -/

/-- The step is the one in which the assumption was made. -/
structure Step.Opens (step : Step) (a : Assumption) : Prop where
  number : step.number = a.step
  rule : step.rule = ProofState.assumptionRule
  formula : step.formula = a.formula
  level : step.level = a.level

namespace ProofState

/-- Steps, assumptions and knowledge agree with each other. -/
structure InOrder (s : ProofState) : Prop where
  numbered : ∀ i step, s.steps[i]? = some step → step.number = i + 1
  nested : ∀ k a, s.assumptions[k]? = some a → a.level = k + 1
  increasing : s.assumptions.Pairwise fun a b => a.step < b.step
  opened : ∀ a ∈ s.assumptions, ∃ step ∈ s.steps, step.Opens a
  stated : ∀ f ∈ s.knowledge.toList, ∃ step ∈ s.steps, step.formula.alike f = true
  /-- There are no steps only if there are no axioms. -/
  begun : s.steps = [] → s.axioms.toList = []

namespace InOrder

lemma number_le (hs : s.InOrder) {step : Step} (h : step ∈ s.steps) :
    step.number ≤ s.steps.length := by
  obtain ⟨i, hi⟩ := List.mem_iff_getElem?.1 h
  have hlt := (List.getElem?_eq_some_iff.1 hi).1
  rw [hs.numbered i step hi]
  omega

lemma step_le (hs : s.InOrder) {a : Assumption} (h : a ∈ s.assumptions) :
    a.step ≤ s.steps.length := by
  obtain ⟨step, hstep, hopens⟩ := hs.opened a h
  rw [← hopens.number]
  exact hs.number_le hstep

/-! ## What changes a state -/

lemma judge (hs : s.InOrder) (status : Status) : InOrder { s with status } :=
  ⟨hs.numbered, hs.nested, hs.increasing, hs.opened, hs.stated, hs.begun⟩

/-- Writing down a step with the next number and making its formula known. -/
lemma write (hs : s.InOrder) {step : Step} (hnumber : step.number = s.steps.length + 1) :
    InOrder { s with
      steps := s.steps ++ [step], knowledge := s.knowledge.insert step.formula } where
  numbered := by
    intro i t ht
    rcases getElem?_concat_cases ht with ⟨-, ht⟩ | ⟨rfl, rfl⟩
    · exact hs.numbered i t ht
    · exact hnumber
  nested := hs.nested
  increasing := hs.increasing
  opened := by
    intro a ha
    obtain ⟨t, ht, hopens⟩ := hs.opened a ha
    exact ⟨t, List.mem_append_left _ ht, hopens⟩
  stated := by
    intro f hf
    rcases OrderedSet.mem_or_eq_of_mem_insert hf with hf | rfl
    · obtain ⟨t, ht, halike⟩ := hs.stated f hf
      exact ⟨t, List.mem_append_left _ ht, halike⟩
    · exact ⟨step, by simp, step.formula.alike_refl⟩
  begun := by simp

/-- Putting an assumption on the stack whose step comes after those of all others. -/
lemma push (hs : s.InOrder) {a : Assumption} (hopened : ∃ step ∈ s.steps, step.Opens a)
    (hlevel : a.level = s.assumptions.length + 1) (hlater : ∀ b ∈ s.assumptions, b.step < a.step) :
    InOrder { s with assumptions := s.assumptions ++ [a] } where
  numbered := hs.numbered
  nested := by
    intro k b hb
    rcases getElem?_concat_cases hb with ⟨-, hb⟩ | ⟨rfl, rfl⟩
    · exact hs.nested k b hb
    · exact hlevel
  increasing := by
    refine List.pairwise_append.2 ⟨hs.increasing, List.pairwise_singleton _ _, fun b hb d hd => ?_⟩
    rw [List.mem_singleton.1 hd]
    exact hlater b hb
  opened := by
    intro b hb
    rcases List.mem_append.1 hb with hb | hb
    · exact hs.opened b hb
    · rwa [List.mem_singleton.1 hb]
  stated := hs.stated
  begun := hs.begun

lemma addStep (hs : s.InOrder) (f : Formula) (rule : String) (numbers : List ℤ) (why : String) :
    (s.addStep f rule numbers why).2.InOrder :=
  (hs.write rfl).judge _

/-- The step of an assumption is written down with the level that the assumption gets. -/
lemma assume (hs : s.InOrder) (f : Formula) (target : Option Formula) :
    (s.assume f target).2.InOrder := by
  refine (hs.write rfl).push ⟨(s.assume f target).1, ?_, ⟨rfl, rfl, rfl, rfl⟩⟩ rfl ?_
  · exact List.mem_append_right _ (List.mem_singleton_self _)
  · intro b hb
    exact Nat.lt_succ_of_le (hs.step_le hb)

lemma discharge (hs : s.InOrder) : s.discharge.2.InOrder := by
  rcases s.discharge_cases with ⟨-, heq⟩ | ⟨earlier, latest, hconcat, heq⟩
  · rwa [heq]
  · rw [heq]
    have hinit : earlier <+: s.assumptions := ⟨[latest], hconcat.symm⟩
    refine ⟨hs.numbered, fun k a ha => hs.nested k a ?_, hs.increasing.sublist hinit.sublist,
      fun a ha => hs.opened a (hinit.subset ha),
      fun f hf => hs.stated f (OrderedSet.mem_of_mem_erase hf), hs.begun⟩
    -- what is left of the stack keeps its places
    rw [hconcat, List.getElem?_append_left (List.getElem?_eq_some_iff.1 ha).1]
    exact ha

lemma conditional (hs : s.InOrder) (a c : Formula) : (s.conditional a c).2.InOrder := by
  rcases s.conditional_cases a c with ⟨-, -, numbers, why, heq⟩ | ⟨-, heq⟩
  · rw [heq]
    exact hs.discharge.addStep _ _ _ _
  · rwa [heq]

lemma after (hs : s.InOrder) (action : Action) : (s.after action).InOrder := by
  cases action with
  | addStep f rule numbers why => exact hs.addStep f rule numbers why
  | assume f target => exact hs.assume f target
  | discharge => exact hs.discharge
  | conditional a c => exact hs.conditional a c
  | setStatus status => exact hs.judge status
  | save | restore => exact hs

/-- Setting up a state anew from its parts gives the same state. -/
lemma clone_eq (hs : s.InOrder) : s.clone = s := by
  rcases s.clone_cases with ⟨hnil, heq⟩ | heq
  · have hnone : s.axioms.toList = [] := hs.begun hnil
    rw [heq, hnone, List.mapIdx_nil, ← hnil]
    rfl
  · exact heq

end InOrder

lemma inOrder_start (axioms : List Formula) (goal : Formula) : (start axioms goal).InOrder where
  numbered := (logged_start (c := {}) axioms goal).derivation.numbered
  nested := by simp [start, settle]
  increasing := List.Pairwise.nil
  opened := List.forall_mem_nil _
  stated := by
    intro f hf
    obtain ⟨step, hstep, halike⟩ :=
      (logged_start (c := {}) axioms goal).contains_iff.1 (FormulaSet.contains_of_mem hf)
    exact ⟨step, hstep, halike⟩
  begun := List.mapIdx_eq_nil_iff.1

/-! ## Conditional proofs -/

lemma steps_discharge (s : ProofState) : s.discharge.2.steps = s.steps := by
  rcases s.discharge_cases with ⟨-, heq⟩ | ⟨earlier, latest, -, heq⟩ <;> rw [heq]

/-- The step that concludes an implication names two steps: an assumption like its left side, and a
step like its right side. -/
lemma conditional_eq_some {a c : Formula} {step : Step} (h : (s.conditional a c).1 = some step) :
    (s.conditional a c).2.steps = s.steps ++ [step] ∧ step.number = s.steps.length + 1 ∧
    ∃ made ∈ s.steps, ∃ shown ∈ s.steps,
      step.premises = [(made.number : ℤ), (shown.number : ℤ)] ∧
      made.rule = assumptionRule ∧ made.formula.alike a = true ∧
      shown.formula.alike c = true := by
  have hlast : ∀ {p : Step → Bool} {found : Step}, s.steps.reverse.find? p = some found →
      found ∈ s.steps ∧ p found = true := fun h =>
    ⟨List.mem_reverse.1 (List.mem_of_find?_eq_some h), List.find?_some h⟩
  unfold conditional at h ⊢
  dsimp only at h ⊢
  split at h
  · rename_i made shown _ hmade hshown
    obtain rfl := Option.some.inj h
    obtain ⟨hmadeMem, hmade⟩ := hlast hmade
    obtain ⟨hshownMem, hshown⟩ := hlast hshown
    rw [Bool.and_eq_true, beq_iff_eq] at hmade
    refine ⟨by rw [addStep, steps_discharge], by rw [addStep, steps_discharge],
      made, hmadeMem, shown, hshownMem, rfl, hmade.2, hmade.1, hshown⟩
  · cases h

lemma conditional_eq_none {a c : Formula} (h : (s.conditional a c).1 = none) :
    (s.conditional a c).2 = s := by
  rcases s.conditional_cases a c with ⟨hconcludes, -⟩ | ⟨-, heq⟩
  · rw [Concludes, h] at hconcludes
    cases hconcludes
  · exact heq

/-! ## Where steps come from -/

lemma steps_after_cases (s : ProofState) (action : Action) :
    (s.after action).steps = s.steps ∨ ∃ step, (s.after action).steps = s.steps ++ [step] := by
  cases action with
  | addStep | assume => exact Or.inr ⟨_, rfl⟩
  | discharge => exact Or.inl s.steps_discharge
  | conditional a c =>
      rcases s.conditional_cases a c with ⟨-, -, numbers, why, heq⟩ | ⟨-, heq⟩
      · rw [after, heq, addStep, steps_discharge]
        exact Or.inr ⟨_, rfl⟩
      · rw [after, heq]
        exact Or.inl rfl
  | setStatus | save | restore => exact Or.inl rfl

/-- Every step but those of the axioms was added by an action, in a state that had the steps before
it. -/
def Accounted (P : ProofState → Action → Prop) (s : ProofState) : Prop :=
  ∀ i step, s.steps[i]? = some step → i < s.axioms.toList.length ∨
    ∃ u action, P u action ∧ u.steps = s.steps.take i ∧ (u.after action).steps = u.steps ++ [step]

lemma Accounted.after {P : ProofState → Action → Prop} (hs : s.Accounted P) (haction : P s action) :
    (s.after action).Accounted P := by
  intro i step hstep
  rw [(s.continues_after action).axioms]
  rcases s.steps_after_cases action with hsame | ⟨new, hnew⟩
  · rw [hsame] at hstep ⊢
    exact hs i step hstep
  · rw [hnew] at hstep ⊢
    rcases getElem?_concat_cases hstep with ⟨hlt, hstep⟩ | ⟨rfl, rfl⟩
    · rw [List.take_append_of_le_length hlt.le]
      exact hs i step hstep
    · exact Or.inr ⟨s, action, haction, by simp, hnew⟩

lemma accounted_start {P : ProofState → Action → Prop} (axioms : List Formula) (goal : Formula) :
    (start axioms goal).Accounted P := by
  intro i step hstep
  have hlt := (List.getElem?_eq_some_iff.1 hstep).1
  exact Or.inl (by simpa [start, settle] using hlt)

end ProofState

/-! ## Whole runs -/

/-- The action is carried out in the state at some point of the run. -/
def Session.Performs (s : Session) (actions : List Action) (u : ProofState) (action : Action) :
    Prop :=
  ∃ done v, done ++ [action] <+: actions ∧ s.replay? done = some v ∧ v.state = u

lemma inOrder_and_accounted_of_replay {actions : List Action} {t : Session}
    (ht : (Session.start axioms goal).replay? actions = some t) :
    t.state.InOrder ∧ t.state.Accounted ((Session.start axioms goal).Performs actions) := by
  have halong : (Session.start axioms goal).Along ((Session.start axioms goal).Performs actions)
      actions :=
    Session.along_of_replay fun done _ u hdone hu => ⟨done, u, hdone, hu, rfl⟩
  refine (halong.each (I := fun s => s.InOrder ∧ s.Accounted _) ?_ ?_ ?_ ht).1
  · exact fun s action hs haction => ⟨hs.1.after action, hs.2.after haction⟩
  · intro s hs
    rwa [hs.1.clone_eq]
  · exact ⟨⟨ProofState.inOrder_start axioms goal, ProofState.accounted_start axioms goal⟩,
      List.forall_mem_nil _⟩

/-- **The books of a proof stay in order.**  In every state that a run reaches, the steps are
numbered from one and the open assumptions have the levels from one upwards; the assumptions' steps
come in the order of the stack, and each of them records its assumption; and each known formula has
a step.  Every step after the axioms was added by an action of the run to the steps before it.  A
conditional proof adds a step that rests on two steps before it, or nothing happens.  A copy is the
same state. -/
theorem reachable_state_inOrder (axioms : List Formula) (goal : Formula) (actions : List Action)
    (t : Session) (ht : (Session.start axioms goal).replay? actions = some t) :
    t.state.InOrder ∧
    (∀ i step, t.state.steps[i]? = some step → i < t.state.axioms.toList.length ∨
      ∃ done action u, done ++ [action] <+: actions ∧
        (Session.start axioms goal).replay? done = some u ∧
        u.state.steps = t.state.steps.take i ∧
        (u.state.after action).steps = u.state.steps ++ [step]) ∧
    (∀ a c step, (t.state.conditional a c).1 = some step →
      (t.state.conditional a c).2.steps = t.state.steps ++ [step] ∧
      ∃ made ∈ t.state.steps, ∃ shown ∈ t.state.steps,
        step.premises = [(made.number : ℤ), (shown.number : ℤ)] ∧
        made.number < step.number ∧ shown.number < step.number ∧
        made.rule = ProofState.assumptionRule ∧ made.formula.alike a = true ∧
        shown.formula.alike c = true) ∧
    (∀ a c, (t.state.conditional a c).1 = none → (t.state.conditional a c).2 = t.state) ∧
    t.state.clone = t.state := by
  obtain ⟨horder, haccounted⟩ := inOrder_and_accounted_of_replay ht
  refine ⟨horder, fun i step hstep => ?_, fun a c step h => ?_,
    fun a c => ProofState.conditional_eq_none, horder.clone_eq⟩
  · refine (haccounted i step hstep).imp_right ?_
    rintro ⟨_, action, ⟨done, u, hdone, hu, rfl⟩, hsteps, hafter⟩
    exact ⟨done, action, u, hdone, hu, hsteps, hafter⟩
  · obtain ⟨hsteps, hnumber, made, hmade, shown, hshown, hpremises, hfacts⟩ :=
      ProofState.conditional_eq_some h
    have hearlier : ∀ earlier ∈ t.state.steps, earlier.number < step.number := by
      intro earlier hmem
      rw [hnumber]
      exact Nat.lt_succ_of_le (horder.number_le hmem)
    exact ⟨hsteps, made, hmade, shown, hshown, hpremises, hearlier made hmade,
      hearlier shown hshown, hfacts⟩

/-- A run that opens two assumptions, closes one, and goes back to a copy from before; the
conditional proof at its end is one that succeeds. -/
theorem reachable_state_inOrder_nested :
    ∃ t, (Session.start [.impl (.var "P") (.var "Q")] (.impl (.var "P") (.var "Q"))).replay?
        [.assume (.var "P") none, .save, .assume (.var "R") none, .discharge, .restore,
          .addStep (.var "Q") "modus_ponens" [2, 1] "MP"] = some t ∧
      (t.state.conditional (.var "P") (.var "Q")).1.isSome = true ∧
      t.state.assumptions.length = 1 ∧ t.state.InOrder ∧ t.state.clone = t.state := by
  obtain ⟨horder, -, -, -, hclone⟩ := reachable_state_inOrder
    [.impl (.var "P") (.var "Q")] (.impl (.var "P") (.var "Q"))
    [.assume (.var "P") none, .save, .assume (.var "R") none, .discharge, .restore,
      .addStep (.var "Q") "modus_ponens" [2, 1] "MP"] _ rfl
  exact ⟨_, rfl, by decide, by decide, horder, hclone⟩

end AnnealProver
