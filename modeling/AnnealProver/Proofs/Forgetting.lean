import AnnealProver.Proofs.Assumptions
import AnnealProver.Proofs.Reach

/-!
# What closing an assumption takes away

An assumption is closed by taking its formula out of the knowledge base.  Nothing records whether
the formula was known already when it was assumed, as an axiom, from a step or from an outer
assumption.  So to assume a formula and to close the assumption at once is to **forget** it
(`contains_assume_discharge_iff`), and this changes nothing only where there was nothing to forget.

What a state knows after an action is said once, in `contains_after_iff`: the action may **bring**
one formula and may **take** one.  Axioms stay known throughout a run exactly as long as every
action **spares** them, that is, brings back whatever axiom it takes (`Action.Spares`).  That is so,
in particular, in a run in which no axiom is ever assumed.
-/

namespace AnnealProver

variable {axioms : List Formula} {goal f g : Formula} {s : ProofState} {action : Action}

/-! ## One action -/

/-- The formula of the latest assumption. -/
def ProofState.latest? (s : ProofState) : Option Formula :=
  s.assumptions.getLast?.map (·.formula)

namespace Action

/-- The formula that the action adds to what is known. -/
def brings (s : ProofState) : Action → Option Formula
  | .addStep f _ _ _ => some f
  | .assume f _ => some f
  | .conditional a c => if (s.conditional a c).1.isSome then some (.impl a c) else none
  | _ => none

/-- The formula that the action removes from what is known. -/
def takes (s : ProofState) : Action → Option Formula
  | .discharge => s.latest?
  | .conditional a c => if (s.conditional a c).1.isSome then s.latest? else none
  | _ => none

/-- If the action removes one of the formulas then it adds it again. -/
def Spares (fs : List Formula) (s : ProofState) (action : Action) : Prop :=
  ∀ f ∈ fs, ∀ g, action.takes s = some g → f.alike g = true →
    ∃ h, action.brings s = some h ∧ h.alike f = true

end Action

namespace ProofState

lemma contains_discharge_iff : s.discharge.2.knowledge.contains f = true ↔
    s.knowledge.contains f = true ∧ ∀ g, s.latest? = some g → f.alike g = false := by
  rcases s.discharge_cases with ⟨hnil, heq⟩ | ⟨earlier, latest, hconcat, heq⟩
  · simp [heq, latest?, hnil]
  · simp [heq, latest?, hconcat, FormulaSet.contains_erase_iff]

/-- **What is known after an action** is what it brings, and what was known before and is not
taken. -/
lemma contains_after_iff : (s.after action).knowledge.contains f = true ↔
    (∃ g, action.brings s = some g ∧ g.alike f = true) ∨
      s.knowledge.contains f = true ∧ ∀ g, action.takes s = some g → f.alike g = false := by
  cases action with
  | addStep h rule numbers why =>
      simp [after, addStep, Action.brings, Action.takes, FormulaSet.contains_insert_iff, or_comm]
  | assume h target =>
      simp [after, ProofState.assume, Action.brings, Action.takes, FormulaSet.contains_insert_iff,
        or_comm]
  | discharge => simp [after, Action.brings, Action.takes, contains_discharge_iff]
  | conditional a c =>
      rcases s.conditional_cases a c with ⟨hsome, -, numbers, why, heq⟩ | ⟨hnone, heq⟩
      · have hconcludes : (s.conditional a c).1.isSome = true := hsome
        simp [after, heq, Action.brings, Action.takes, hconcludes, addStep,
          FormulaSet.contains_insert_iff, contains_discharge_iff, or_comm]
      · have hconcludes : ¬ (s.conditional a c).1.isSome = true := hnone
        simp [after, heq, Action.brings, Action.takes, hconcludes]
  | setStatus | save | restore => simp [after, Action.brings, Action.takes]

/-- To assume a formula and to close the assumption is to forget the formula. -/
lemma contains_assume_discharge_iff {target : Option Formula} :
    (s.assume f target).2.discharge.2.knowledge.contains g = true ↔
      s.knowledge.contains g = true ∧ g.alike f = false := by
  rw [contains_discharge_iff]
  simp only [ProofState.assume, latest?, List.getLast?_concat, Option.map_some, Option.some.injEq,
    forall_eq', FormulaSet.contains_insert_iff]
  constructor
  · rintro ⟨hg | hfg, hother⟩
    · exact ⟨hg, hother⟩
    · simp [Formula.alike_symm hfg] at hother
  · rintro ⟨hg, hother⟩
    exact ⟨Or.inl hg, hother⟩

/-- The axioms are known. -/
def Knows (fs : List Formula) (s : ProofState) : Prop :=
  ∀ f ∈ fs, s.knowledge.contains f = true

lemma knows_after_iff (hs : s.Knows axioms) :
    (s.after action).Knows axioms ↔ action.Spares axioms s := by
  constructor
  · intro h f hf g htaken hfg
    rcases contains_after_iff.1 (h f hf) with hbrought | ⟨-, hkept⟩
    · exact hbrought
    · simp [hkept g htaken] at hfg
  · intro h f hf
    rw [contains_after_iff]
    by_cases hbrought : ∃ g, action.brings s = some g ∧ g.alike f = true
    · exact Or.inl hbrought
    · refine Or.inr ⟨hs f hf, fun g htaken => ?_⟩
      by_contra hfg
      exact hbrought (h f hf g htaken (by simpa using hfg))

lemma Knows.clone (hs : s.Knows axioms) : s.clone.Knows axioms := by
  rcases s.clone_cases with ⟨-, heq⟩ | heq
  · rw [heq]
    intro f hf
    obtain ⟨g, hg, hgf⟩ := OrderedSet.contains_iff.1 (hs f hf)
    exact OrderedSet.contains_iff.2 ⟨g, OrderedSet.mem_insertAll_of_mem hg, hgf⟩
  · rwa [heq]

/-- The formula of every open assumption was assumed by one of the actions. -/
def AssumedBy (actions : List Action) (s : ProofState) : Prop :=
  ∀ a ∈ s.assumptions, ∃ target, .assume a.formula target ∈ actions

lemma mem_of_mem_assumptions_discharge {a : Assumption} (ha : a ∈ s.discharge.2.assumptions) :
    a ∈ s.assumptions := by
  rcases s.discharge_cases with ⟨-, heq⟩ | ⟨earlier, latest, hconcat, heq⟩
  · rwa [heq] at ha
  · rw [heq] at ha
    rw [hconcat]
    exact List.mem_append_left _ ha

lemma AssumedBy.after {actions : List Action} (hs : s.AssumedBy actions)
    (haction : action ∈ actions) : (s.after action).AssumedBy actions := by
  intro a ha
  cases action with
  | assume f target =>
      rcases List.mem_append.1 ha with ha | ha
      · exact hs a ha
      · obtain rfl := List.mem_singleton.1 ha
        exact ⟨target, haction⟩
  | discharge => exact hs a (mem_of_mem_assumptions_discharge ha)
  | conditional b c =>
      rcases s.conditional_cases b c with ⟨-, -, numbers, why, heq⟩ | ⟨-, heq⟩
      · rw [ProofState.after, heq] at ha
        exact hs a (mem_of_mem_assumptions_discharge ha)
      · rw [ProofState.after, heq] at ha
        exact hs a ha
  | addStep | setStatus | save | restore => exact hs a ha

lemma AssumedBy.clone {actions : List Action} (hs : s.AssumedBy actions) :
    s.clone.AssumedBy actions := by
  rcases s.clone_cases with ⟨-, heq⟩ | heq
  · rw [heq]
    exact hs
  · rwa [heq]

end ProofState

/-! ## Whole runs -/

variable {actions : List Action} {t : Session}

/-- A condition along a run is one on each action and the state in which it is carried out. -/
lemma Session.along_of_replay {P : ProofState → Action → Prop} {s : Session}
    (h : ∀ done action u, done ++ [action] <+: actions → s.replay? done = some u →
      P u.state action) : s.Along P actions := by
  induction actions generalizing s with
  | nil => trivial
  | cons action rest ih =>
      refine ⟨h [] action s (List.prefix_append [action] rest) rfl, fun outcome t ht => ih ?_⟩
      intro done next u hdone hu
      refine h (action :: done) next u ((List.prefix_cons_inj action).2 hdone) ?_
      simpa [replay?, ht] using hu

lemma Session.along_of_mem {P : ProofState → Action → Prop}
    (h : ∀ action ∈ actions, ∀ s, P s action) (s : Session) : s.Along P actions :=
  along_of_replay fun done action u hdone _ => h action (hdone.subset (by simp)) u.state

lemma knows_start (axioms : List Formula) (goal : Formula) :
    (ProofState.start axioms goal).Knows axioms :=
  fun _ hf => contains_start hf

/-- Sparing actions leave the axioms known. -/
lemma knows_of_spares (h : (Session.start axioms goal).Along (Action.Spares axioms) actions)
    (ht : (Session.start axioms goal).replay? actions = some t) : t.state.Knows axioms :=
  (h.each (I := fun s => s.Knows axioms)
    (fun _ _ hs hspares => (ProofState.knows_after_iff hs).2 hspares)
    (fun _ hs => hs.clone) ⟨knows_start axioms goal, by simp [Session.start]⟩ ht).1

/-- In every state of a run the open assumptions are among those that the run has made. -/
lemma assumedBy_of_replay (ht : (Session.start axioms goal).replay? actions = some t) :
    t.state.AssumedBy actions := by
  have halong : (Session.start axioms goal).Along (fun _ action => action ∈ actions) actions :=
    Session.along_of_mem (fun _ haction _ => haction) _
  have hstart : (ProofState.start axioms goal).AssumedBy actions := by
    rw [ProofState.start, ProofState.settle]
    intro assumption hassumption
    cases hassumption
  exact (halong.each (I := fun s => s.AssumedBy actions) (fun _ _ hs haction => hs.after haction)
    (fun _ hs => hs.clone) ⟨hstart, by simp [Session.start]⟩ ht).1

/-- A run that assumes no axiom spares the axioms. -/
lemma spares_of_not_assumed
    (h : ∀ f target, .assume f target ∈ actions → ∀ a ∈ axioms, a.alike f = false) :
    (Session.start axioms goal).Along (Action.Spares axioms) actions := by
  refine Session.along_of_states (P := fun _ _ => True) (I := fun s => s.AssumedBy actions)
    (Session.along_of_mem (fun _ _ _ => trivial) _) ?_ nofun ?_
  · intro s action hs _ _ f hf g htaken hfg
    -- Whatever an action takes is the formula of an open assumption.
    have hlatest : s.latest? = some g := by
      cases action with
      | conditional a c =>
          simp only [Action.takes] at htaken
          split at htaken
          · exact htaken
          · cases htaken
      | discharge => exact htaken
      | addStep | assume | setStatus | save | restore => cases htaken
    obtain ⟨assumption, hopen, rfl⟩ := Option.map_eq_some_iff.1 hlatest
    obtain ⟨target, hmade⟩ := hs assumption (List.mem_of_getLast? hopen)
    simp [h _ _ hmade f hf] at hfg
  · intro done t hdone ht assumption hassumption
    obtain ⟨target, hmade⟩ := assumedBy_of_replay ht assumption hassumption
    exact ⟨target, hdone.subset hmade⟩

/-- **When axioms stay known.**  In every run the axioms are known in every state exactly if no
action takes an axiom without bringing it back, and so in every run that assumes no axiom.  To
assume a formula and to close the assumption at once takes this formula away and nothing else: what
is known stays the same exactly if the formula was not known. -/
theorem axioms_known_iff_spared (axioms : List Formula) (goal : Formula) :
    (∀ actions,
      ((∀ done t, done <+: actions → (Session.start axioms goal).replay? done = some t →
        ∀ f ∈ axioms, t.state.knowledge.contains f = true) ↔
          (Session.start axioms goal).Along (Action.Spares axioms) actions) ∧
      ((∀ f target, .assume f target ∈ actions → ∀ a ∈ axioms, a.alike f = false) →
        (Session.start axioms goal).Along (Action.Spares axioms) actions)) ∧
    ∀ (s : ProofState) (f : Formula) (target : Option Formula),
      (∀ g, (s.assume f target).2.discharge.2.knowledge.contains g = true ↔
        s.knowledge.contains g = true ∧ g.alike f = false) ∧
      ((∀ g, (s.assume f target).2.discharge.2.knowledge.contains g = s.knowledge.contains g) ↔
        s.knowledge.contains f = false) := by
  refine ⟨fun actions => ⟨⟨fun h => ?_, fun h done t hdone ht => ?_⟩, spares_of_not_assumed⟩,
    fun s f target =>
      ⟨fun g => ProofState.contains_assume_discharge_iff, fun h => ?_, fun h g => ?_⟩⟩
  · exact Session.along_of_states (P := fun _ _ => True) (I := fun s => s.Knows axioms)
      (Session.along_of_mem (fun _ _ _ => trivial) _)
      (fun _ _ hs _ hafter => (ProofState.knows_after_iff hs).1 hafter) nofun h
  · exact knows_of_spares (h.of_prefix hdone) ht
  · rw [← h f, Bool.eq_false_iff]
    intro hf
    simpa [Formula.alike_refl] using (ProofState.contains_assume_discharge_iff.1 hf).2
  · rw [Bool.eq_iff_iff, ProofState.contains_assume_discharge_iff, and_iff_left_iff_imp]
    intro hg
    rw [Bool.eq_false_iff]
    intro hgf
    rw [FormulaSet.contains_congr hgf, h] at hg
    cases hg

/-- `P` is an axiom, is assumed, and is unknown once the assumption is closed. -/
theorem axiom_lost_on_closing :
    ∃ actions t, (Session.start [.var "P"] (.var "Q")).replay? actions = some t ∧
      t.state.assumptions = [] ∧ t.state.knowledge.contains (.var "P") = false :=
  ⟨[.assume (.var "P") none, .discharge], _, rfl, rfl, by decide⟩

end AnnealProver
