import AnnealProver.Proof.Session
import AnnealProver.Proofs.Likeness
import AnnealProver.Proofs.Search

/-!
# What closing an assumption leaves behind

In a proof by hand assumptions are opened, formulas that follow from what is known are added, and
the latest assumption is closed, with or without an implication for a conclusion.  One expects what
is known to follow from the axioms and the assumptions that are **open**: the state is `Supported`.

It is not so, for two reasons.  Closing an assumption takes the assumed formula out of the knowledge
base and leaves in it what was drawn from that formula.  And a conditional proof closes the latest
assumption, whichever assumption its implication speaks of.  These are the only reasons: a run keeps
its states supported exactly as long as every closing in it is **clean** (`Action.Clean`).  Without
that, all that can be said is that what is known follows from the axioms and all assumptions ever
made (`ProofState.assumed`), and there is no goal that could not be reached
(`exists_unsupported_run`).
-/

namespace AnnealProver

variable {axioms premises : List Formula} {goal f a c : Formula} {s : ProofState}

lemma Entails.mono {premises' : List Formula} (h : Entails premises f)
    (hsub : ∀ p ∈ premises, p ∈ premises') : Entails premises' f :=
  fun v hv => h v fun p hp => hv p (hsub p hp)

/-! ## Changing the state -/

namespace ProofState

/-- The formulas of the open assumptions. -/
def hypotheses (s : ProofState) : List Formula :=
  s.assumptions.map (·.formula)

/-- The formulas of all assumptions that were made, open or closed. -/
def assumed (s : ProofState) : List Formula :=
  (s.steps.filter fun step => step.rule == assumptionRule).map (·.formula)

/-- What is known follows from the axioms and the open assumptions. -/
def Supported (axioms : List Formula) (s : ProofState) : Prop :=
  s.Grounded (axioms ++ s.hypotheses)

lemma Grounded.mono {premises' : List Formula} (hs : s.Grounded premises)
    (hsub : ∀ p ∈ premises, p ∈ premises') : s.Grounded premises' :=
  fun f hf => (hs f hf).mono hsub

/-- What follows from what is known follows from the premises. -/
lemma Grounded.entails (hs : s.Grounded premises) (h : Entails s.knowledge.toList f) :
    Entails premises f :=
  Entails.trans hs h

lemma Grounded.addStep {rule why : String} {numbers : List Int} (hs : s.Grounded premises)
    (hf : Entails premises f) : (s.addStep f rule numbers why).2.Grounded premises := by
  intro g hg
  rcases OrderedSet.mem_or_eq_of_mem_insert hg with hg | rfl
  · exact hs g hg
  · exact hf

lemma Grounded.assume {target : Option Formula} (hs : s.Grounded premises)
    (hf : f ∈ premises) : (s.assume f target).2.Grounded premises := by
  intro g hg
  rcases OrderedSet.mem_or_eq_of_mem_insert hg with hg | rfl
  · exact hs g hg
  · exact fun v hv => hv g hf

/-- Closing takes the latest assumption off and its formula out of the knowledge base, or does
nothing. -/
lemma discharge_cases (s : ProofState) :
    (s.assumptions = [] ∧ s.discharge.2 = s) ∨
    ∃ earlier latest, s.assumptions = earlier ++ [latest] ∧ s.discharge.2 = { s with
      assumptions := earlier, knowledge := s.knowledge.erase latest.formula } := by
  rcases List.eq_nil_or_concat' s.assumptions with h | ⟨earlier, latest, h⟩
  · exact Or.inl ⟨h, by simp [discharge, h]⟩
  · exact Or.inr ⟨earlier, latest, h, by simp [discharge, h]⟩

lemma mem_of_mem_discharge (hf : f ∈ s.discharge.2.knowledge.toList) : f ∈ s.knowledge.toList := by
  rcases s.discharge_cases with ⟨-, heq⟩ | ⟨earlier, latest, -, heq⟩
  · rwa [heq] at hf
  · rw [heq] at hf
    exact OrderedSet.mem_of_mem_erase hf

lemma Grounded.discharge (hs : s.Grounded premises) : s.discharge.2.Grounded premises :=
  fun f hf => hs f (mem_of_mem_discharge hf)

/-- The conditional proof goes through. -/
def Concludes (s : ProofState) (a c : Formula) : Prop :=
  (s.conditional a c).1.isSome = true

/-- A conditional proof closes the latest assumption and records the implication, given that the
right side is known, or does nothing. -/
lemma conditional_cases (s : ProofState) (a c : Formula) :
    (s.Concludes a c ∧ s.knowledge.contains c = true ∧ ∃ numbers why,
      (s.conditional a c).2 = (s.discharge.2.addStep (.impl a c) "imply_intro" numbers why).2) ∨
    (¬ s.Concludes a c ∧ (s.conditional a c).2 = s) := by
  unfold Concludes conditional
  dsimp only
  split
  · rename_i hknown _ _
    exact Or.inl ⟨rfl, hknown, _, _, rfl⟩
  · exact Or.inr ⟨by simp, rfl⟩

lemma Grounded.impl (hs : s.Grounded premises) (hc : s.knowledge.contains c = true) :
    Entails premises (.impl a c) := by
  intro v hv
  rw [Formula.eval, hs.contains hc v hv, Bool.or_true]

lemma Grounded.conditional (hs : s.Grounded premises) :
    (s.conditional a c).2.Grounded premises := by
  rcases s.conditional_cases a c with ⟨-, hc, numbers, why, heq⟩ | ⟨-, heq⟩
  · rw [heq]
    exact hs.discharge.addStep (hs.impl hc)
  · rwa [heq]

/-! ## Clean closings -/

/-- What stays known when the latest assumption is closed follows without it. -/
def ClosesCleanly (axioms : List Formula) (s : ProofState) : Prop :=
  ∀ earlier latest, s.assumptions = earlier ++ [latest] → ∀ f ∈ s.knowledge.toList,
    f.alike latest.formula = false → Entails (axioms ++ earlier.map (·.formula)) f

/-- The implication concludes the assumption that is closed from something else. -/
def Mispairs (s : ProofState) (a c : Formula) : Prop :=
  ∃ earlier latest, s.assumptions = earlier ++ [latest] ∧ c.alike latest.formula = true ∧
    a.alike latest.formula = false

lemma supported_discharge_iff (hs : s.Supported axioms) :
    s.discharge.2.Supported axioms ↔ s.ClosesCleanly axioms := by
  rcases s.discharge_cases with ⟨hnil, heq⟩ | ⟨earlier, latest, hconcat, heq⟩
  · rw [heq]
    refine ⟨fun _ earlier latest h => ?_, fun _ => hs⟩
    simp [hnil] at h
  · rw [heq]
    constructor
    · intro h earlier' latest' h' f hf hother
      obtain ⟨rfl, rfl⟩ : earlier = earlier' ∧ latest = latest' := by simpa [hconcat] using h'
      exact h f (List.mem_filter.2 ⟨hf, by simpa using hother⟩)
    · intro h f hf
      obtain ⟨hf, hother⟩ := List.mem_filter.1 hf
      exact h earlier latest hconcat f hf (by simpa using hother)

/-- Where the closing is clean, the implication needs care only if it is mispaired: its right side
otherwise stays known, or is its left side. -/
lemma impl_of_closesCleanly (hs : s.Supported axioms) (hclean : s.ClosesCleanly axioms)
    (hc : s.knowledge.contains c = true) (hpair : ¬ s.Mispairs a c) :
    Entails (axioms ++ s.discharge.2.hypotheses) (.impl a c) := by
  rcases s.discharge_cases with ⟨hnil, heq⟩ | ⟨earlier, latest, hconcat, heq⟩
  · rw [heq]
    exact hs.impl hc
  · rw [heq]
    by_cases hcl : c.alike latest.formula = true
    · have hal : a.alike latest.formula = true := by
        by_contra hal
        exact hpair ⟨earlier, latest, hconcat, hcl, by simpa using hal⟩
      intro v _
      have hvalue : a.eval v = c.eval v :=
        Formula.eval_eq_of_alike (Formula.alike_trans hal (Formula.alike_symm hcl))
      rw [Formula.eval, hvalue, Bool.not_or_self]
    · obtain ⟨g, hg, hgc⟩ := OrderedSet.contains_iff.1 hc
      have hgl : g.alike latest.formula = false := by
        rw [← Bool.not_eq_true]
        exact fun h => hcl (Formula.alike_trans (Formula.alike_symm hgc) h)
      intro v hv
      have hcv : c.eval v = true := by
        rw [← Formula.eval_eq_of_alike hgc]
        exact hclean earlier latest hconcat g hg hgl v hv
      rw [Formula.eval, hcv, Bool.or_true]

lemma supported_conditional_iff (hs : s.Supported axioms) :
    (s.conditional a c).2.Supported axioms ↔ (s.Concludes a c → s.ClosesCleanly axioms ∧
      (s.Mispairs a c → Entails (axioms ++ s.discharge.2.hypotheses) (.impl a c))) := by
  rcases s.conditional_cases a c with ⟨hconcludes, hc, numbers, why, heq⟩ | ⟨hconcludes, heq⟩
  · rw [heq]
    constructor
    · intro h _
      refine ⟨(supported_discharge_iff hs).1 fun f hf => ?_, fun _ => ?_⟩
      · exact h f (OrderedSet.mem_insert_of_mem hf)
      · exact Grounded.contains h FormulaSet.contains_insert_self
    · intro h
      obtain ⟨hclean, hpair⟩ := h hconcludes
      refine Grounded.addStep ((supported_discharge_iff hs).2 hclean) ?_
      by_cases hmis : s.Mispairs a c
      · exact hpair hmis
      · exact impl_of_closesCleanly hs hclean hc hmis
  · rw [heq]
    exact ⟨fun _ h => absurd h hconcludes, fun _ => hs⟩

end ProofState

/-! ## Actions -/

/-- Nothing is added but what follows from the formulas known at the moment. -/
def Action.Warranted (s : ProofState) : Action → Prop
  | .addStep f _ _ _ => Entails s.knowledge.toList f
  | _ => True

/-- If the action closes an assumption, what stays known does not need it, and neither does a
mispaired implication. -/
def Action.Clean (axioms : List Formula) (s : ProofState) : Action → Prop
  | .discharge => s.ClosesCleanly axioms
  | .conditional a c => s.Concludes a c → s.ClosesCleanly axioms ∧
      (s.Mispairs a c → Entails (axioms ++ s.discharge.2.hypotheses) (.impl a c))
  | _ => True

namespace ProofState

/-- The state after an action that does not bring back a copy. -/
def after (s : ProofState) : Action → ProofState
  | .addStep f rule numbers why => (s.addStep f rule numbers why).2
  | .assume f target => (s.assume f target).2
  | .discharge => s.discharge.2
  | .conditional a c => (s.conditional a c).2
  | .setStatus status => { s with status }
  | .save | .restore => s

variable {action : Action}

lemma supported_after_iff (hs : s.Supported axioms) (hw : action.Warranted s) :
    (s.after action).Supported axioms ↔ action.Clean axioms s := by
  cases action with
  | addStep f rule numbers why =>
      exact ⟨fun _ => trivial, fun _ => Grounded.addStep hs (hs.entails hw)⟩
  | assume f target =>
      refine ⟨fun _ => trivial, fun _ => ?_⟩
      have hlonger : (s.assume f target).2.hypotheses = s.hypotheses ++ [f] := by
        simp [hypotheses, ProofState.assume]
      rw [after, Supported, hlonger, ← List.append_assoc]
      exact (Grounded.mono hs fun p hp => List.mem_append_left _ hp).assume (by simp)
  | discharge => exact supported_discharge_iff hs
  | conditional a c => exact supported_conditional_iff hs
  | setStatus status => exact ⟨fun _ => trivial, fun _ => hs⟩
  | save => exact ⟨fun _ => trivial, fun _ => hs⟩
  | restore => exact ⟨fun _ => trivial, fun _ => hs⟩

/-- What an action does not change, and the steps, of which none is lost. -/
structure Continues (s t : ProofState) : Prop where
  axioms : t.axioms = s.axioms
  goal : t.goal = s.goal
  steps : s.steps <+: t.steps

lemma continues_discharge (s : ProofState) : s.Continues s.discharge.2 := by
  rcases s.discharge_cases with ⟨-, heq⟩ | ⟨earlier, latest, -, heq⟩
  · rw [heq]
    exact ⟨rfl, rfl, List.prefix_rfl⟩
  · rw [heq]
    exact ⟨rfl, rfl, List.prefix_rfl⟩

lemma continues_after (s : ProofState) (action : Action) : s.Continues (s.after action) := by
  cases action with
  | addStep f rule numbers why => exact ⟨rfl, rfl, List.prefix_append _ _⟩
  | assume f target => exact ⟨rfl, rfl, List.prefix_append _ _⟩
  | discharge => exact s.continues_discharge
  | conditional a c =>
      have hdischarge := s.continues_discharge
      rcases s.conditional_cases a c with ⟨-, -, numbers, why, heq⟩ | ⟨-, heq⟩
      · rw [after, heq]
        exact ⟨hdischarge.axioms, hdischarge.goal,
          hdischarge.steps.trans (List.prefix_append _ _)⟩
      · rw [after, heq]
        exact ⟨rfl, rfl, List.prefix_rfl⟩
  | setStatus | save | restore => exact ⟨rfl, rfl, List.prefix_rfl⟩

lemma Continues.mem_assumed {t : ProofState} (h : s.Continues t) (hf : f ∈ s.assumed) :
    f ∈ t.assumed := by
  obtain ⟨later, hlater⟩ := h.steps
  rw [assumed, ← hlater, List.filter_append, List.map_append]
  exact List.mem_append_left _ hf

lemma grounded_after (hs : s.Grounded (axioms ++ s.assumed)) (hw : action.Warranted s) :
    (s.after action).Grounded (axioms ++ (s.after action).assumed) := by
  have hmore : s.Grounded (axioms ++ (s.after action).assumed) := by
    refine hs.mono fun p hp => ?_
    rw [List.mem_append] at hp ⊢
    exact hp.imp id (s.continues_after action).mem_assumed
  cases action with
  | addStep f rule numbers why => exact hmore.addStep (hmore.entails hw)
  | assume f target =>
      refine hmore.assume ?_
      simp [after, assumed, ProofState.assume]
  | discharge => exact hmore.discharge
  | conditional a c => exact hmore.conditional
  | setStatus | save | restore => exact hmore

/-! ## Copies -/

lemma clone_cases (s : ProofState) :
    (s.steps = [] ∧ s.clone = { s with
      steps := s.axioms.toList.mapIdx axiomStep
      knowledge := s.knowledge.insertAll s.axioms.toList }) ∨ s.clone = s := by
  by_cases h : s.steps = []
  · exact Or.inl ⟨h, by simp [clone, settle, h]⟩
  · exact Or.inr (by simp [clone, settle, h])

lemma Grounded.clone (hs : s.Grounded premises) (haxioms : ∀ f ∈ s.axioms.toList, f ∈ premises) :
    s.clone.Grounded premises := by
  rcases s.clone_cases with ⟨-, heq⟩ | heq
  · rw [heq]
    intro f hf
    rcases OrderedSet.mem_or_mem_of_mem_insertAll hf with hf | hf
    · exact hs f hf
    · exact fun v hv => hv f (haxioms f hf)
  · rwa [heq]

lemma hypotheses_clone (s : ProofState) : s.clone.hypotheses = s.hypotheses := by
  rcases s.clone_cases with ⟨-, heq⟩ | heq <;> rw [heq]
  rfl

lemma continues_clone (s : ProofState) : s.Continues s.clone := by
  rcases s.clone_cases with ⟨hnil, heq⟩ | heq
  · rw [heq]
    exact ⟨rfl, rfl, by simp [hnil]⟩
  · rw [heq]
    exact ⟨rfl, rfl, List.prefix_rfl⟩

end ProofState

/-! ## Runs -/

namespace Session

variable {t : Session} {action : Action} {actions : List Action} {outcome : Outcome}
  {P Q : ProofState → Action → Prop} {I : ProofState → Prop}

/-- The session at the beginning of a problem. -/
def start (axioms : List Formula) (goal : Formula) : Session :=
  { state := .start axioms goal }

/-- The condition holds of each action at the state in which it is carried out. -/
def Along (P : ProofState → Action → Prop) (s : Session) : List Action → Prop
  | [] => True
  | action :: rest =>
    P s.state action ∧ ∀ outcome t, s.perform? action = some (outcome, t) → t.Along P rest

/-- The statement holds of the state and of the saved copies. -/
def Each (I : ProofState → Prop) (s : Session) : Prop :=
  I s.state ∧ ∀ copy ∈ s.saved, I copy

lemma perform?_cases {s : Session} (h : s.perform? action = some (outcome, t)) :
    (t.state = s.state.after action ∧ ∀ copy ∈ t.saved, copy = s.state.clone ∨ copy ∈ s.saved) ∨
    (action = .restore ∧ t.state ∈ s.saved ∧ ∀ copy ∈ t.saved, copy ∈ s.saved) := by
  cases action with
  | restore =>
      simp only [perform?] at h
      split at h
      · simp at h
      · rename_i state saved hsaved
        obtain ⟨-, rfl⟩ := Prod.mk.inj (Option.some.inj h)
        exact Or.inr ⟨rfl, by simp [hsaved], fun copy hcopy => by simp [hsaved, hcopy]⟩
  | save =>
      obtain ⟨-, rfl⟩ := Prod.mk.inj (Option.some.inj h)
      exact Or.inl ⟨rfl, fun copy hcopy => List.mem_cons.1 hcopy⟩
  | addStep | assume | discharge | conditional | setStatus =>
      obtain ⟨-, rfl⟩ := Prod.mk.inj (Option.some.inj h)
      exact Or.inl ⟨rfl, fun copy hcopy => Or.inr hcopy⟩

lemma Each.perform? {s : Session} (hs : s.Each I) (hafter : I (s.state.after action))
    (hclone : I s.state.clone) (h : s.perform? action = some (outcome, t)) : t.Each I := by
  rcases perform?_cases h with ⟨hstate, hsaved⟩ | ⟨-, hstate, hsaved⟩
  · refine ⟨hstate ▸ hafter, fun copy hcopy => ?_⟩
    rcases hsaved copy hcopy with rfl | hcopy
    · exact hclone
    · exact hs.2 copy hcopy
  · exact ⟨hs.2 _ hstate, fun copy hcopy => hs.2 copy (hsaved copy hcopy)⟩

/-- What every action and every copy keeps, the whole run keeps. -/
lemma Along.each {s : Session} (hafter : ∀ s action, I s → P s action → I (s.after action))
    (hclone : ∀ s, I s → I s.clone) (h : s.Along P actions) (hs : s.Each I)
    (ht : s.replay? actions = some t) : t.Each I := by
  induction actions generalizing s with
  | nil =>
      obtain rfl := Option.some.inj ht
      exact hs
  | cons action rest ih =>
      rw [replay?] at ht
      split at ht
      · rename_i outcome u hu
        exact ih (h.2 outcome u hu)
          (hs.perform? (hafter _ _ hs.1 h.1) (hclone _ hs.1) hu) ht
      · simp at ht

lemma Along.of_prefix {s : Session} {done : List Action} (h : s.Along P actions)
    (hdone : done <+: actions) : s.Along P done := by
  induction done generalizing s actions with
  | nil => trivial
  | cons action done ih =>
      obtain ⟨rest, rfl⟩ := hdone
      exact ⟨h.1, fun outcome t ht => ih (h.2 outcome t ht) (List.prefix_append _ _)⟩

lemma Along.and {s : Session} (hP : s.Along P actions) (hQ : s.Along Q actions) :
    s.Along (fun s action => P s action ∧ Q s action) actions := by
  induction actions generalizing s with
  | nil => trivial
  | cons action rest ih =>
      exact ⟨⟨hP.1, hQ.1⟩, fun outcome t ht => ih (hP.2 outcome t ht) (hQ.2 outcome t ht)⟩

/-- If every state of a run has a property that an action keeps only on a condition, then every
action meets the condition. -/
lemma along_of_states {s : Session} (hP : s.Along P actions)
    (hafter : ∀ s action, I s → P s action → I (s.after action) → Q s action)
    (hrestore : ∀ s, Q s .restore)
    (h : ∀ done t, done <+: actions → s.replay? done = some t → I t.state) :
    s.Along Q actions := by
  induction actions generalizing s with
  | nil => trivial
  | cons action rest ih =>
      have hs : I s.state := h [] s List.nil_prefix rfl
      refine ⟨?_, fun outcome t ht => ih (hP.2 outcome t ht) fun done u hdone hu => ?_⟩
      · by_cases haction : action = .restore
        · rw [haction]
          exact hrestore _
        · obtain ⟨outcome, t, ht⟩ : ∃ outcome t, s.perform? action = some (outcome, t) := by
            cases action <;> simp_all [perform?]
          have hstate : t.state = s.state.after action := by
            rcases perform?_cases ht with ⟨hstate, -⟩ | ⟨heq, -⟩
            · exact hstate
            · exact absurd heq haction
          refine hafter _ _ hs hP.1 ?_
          rw [← hstate]
          refine h [action] t (List.prefix_append [action] rest) ?_
          simp [replay?, ht]
      · refine h (action :: done) u ((List.prefix_cons_inj action).2 hdone) ?_
        simpa [replay?, ht] using hu

/-- States that are all supported are reached by clean actions only. -/
lemma along_clean {s : Session} (hw : s.Along Action.Warranted actions)
    (h : ∀ done t, done <+: actions → s.replay? done = some t → t.state.Supported axioms) :
    s.Along (Action.Clean axioms) actions :=
  along_of_states hw (fun _ _ hs hw hafter => (ProofState.supported_after_iff hs hw).1 hafter)
    (fun _ => trivial) h

end Session

/-! ## The discipline of assumptions -/

/-- The state is one of a proof of the goal from the axioms. -/
structure ProofState.Poses (axioms : List Formula) (goal : Formula) (s : ProofState) : Prop where
  axioms : ∀ f ∈ s.axioms.toList, f ∈ axioms
  goal : s.goal = goal

lemma ProofState.Continues.poses {t : ProofState} (h : s.Continues t) (hs : s.Poses axioms goal) :
    t.Poses axioms goal :=
  ⟨fun f hf => hs.axioms f (h.axioms ▸ hf), h.goal.trans hs.goal⟩

lemma poses_start (axioms : List Formula) (goal : Formula) :
    (ProofState.start axioms goal).Poses axioms goal :=
  ⟨fun _ hf => OrderedSet.mem_of_mem_ofList hf, rfl⟩

variable {actions : List Action} {t : Session}

/-- However assumptions are closed, what is known follows from the axioms and all assumptions that
were made. -/
lemma grounded_of_warranted (hw : (Session.start axioms goal).Along Action.Warranted actions)
    (ht : (Session.start axioms goal).replay? actions = some t) :
    t.state.Grounded (axioms ++ t.state.assumed) := by
  have hstart : (ProofState.start axioms goal).Grounded
      (axioms ++ (ProofState.start axioms goal).assumed) :=
    (grounded_start axioms goal).mono fun p hp => List.mem_append_left _ hp
  have heach := hw.each (I := fun s => s.Poses axioms goal ∧ s.Grounded (axioms ++ s.assumed))
    (fun s action hs hw => ⟨(s.continues_after action).poses hs.1,
      ProofState.grounded_after hs.2 hw⟩)
    (fun s hs => ⟨s.continues_clone.poses hs.1, ?_⟩)
    ⟨⟨poses_start axioms goal, hstart⟩, by simp [Session.start]⟩ ht
  · exact heach.1.2
  · have hmore : s.Grounded (axioms ++ s.clone.assumed) := by
      refine hs.2.mono fun p hp => ?_
      rw [List.mem_append] at hp ⊢
      exact hp.imp id s.continues_clone.mem_assumed
    exact hmore.clone fun f hf => List.mem_append_left _ (hs.1.axioms f hf)

/-- As long as assumptions are closed cleanly, what is known follows from the axioms and the open
assumptions. -/
lemma supported_of_clean (hw : (Session.start axioms goal).Along Action.Warranted actions)
    (hclean : (Session.start axioms goal).Along (Action.Clean axioms) actions)
    (ht : (Session.start axioms goal).replay? actions = some t) :
    t.state.Poses axioms goal ∧ t.state.Supported axioms := by
  have hstart : (ProofState.start axioms goal).Supported axioms :=
    (grounded_start axioms goal).mono fun p hp => List.mem_append_left _ hp
  have heach := (hw.and hclean).each (I := fun s => s.Poses axioms goal ∧ s.Supported axioms)
    (fun s action hs h => ⟨(s.continues_after action).poses hs.1,
      (ProofState.supported_after_iff hs.2 h.1).2 h.2⟩)
    (fun s hs => ⟨s.continues_clone.poses hs.1, ?_⟩)
    ⟨⟨poses_start axioms goal, hstart⟩, by simp [Session.start]⟩ ht
  · exact heach.1
  · rw [ProofState.Supported, ProofState.hypotheses_clone]
    exact ProofState.Grounded.clone hs.2 fun f hf => List.mem_append_left _ (hs.1.axioms f hf)

/-- Any goal can be reached with no assumption open: it is assumed, doubly negated under the
assumption, and taken back from the double negation that stays when the assumption is closed. -/
lemma exists_unsupported_run (axioms : List Formula) (goal : Formula) :
    ∃ actions t, (Session.start axioms goal).Along Action.Warranted actions ∧
      (Session.start axioms goal).replay? actions = some t ∧ t.state.assumptions = [] ∧
        t.state.isComplete = true := by
  let kb := ((ProofState.start axioms goal).knowledge.insert goal).insert (.neg (.neg goal))
  have hother : goal.neg.neg.alike goal = false := by
    rw [← Bool.not_eq_true]
    intro h
    have hsize := Formula.size_eq_of_alike h
    simp only [Formula.size] at hsize
    omega
  have hkept : (kb.erase goal).contains (.neg (.neg goal)) = true :=
    FormulaSet.contains_erase_iff.2 ⟨FormulaSet.contains_insert_self, hother⟩
  have hdouble : Entails ((ProofState.start axioms goal).knowledge.insert goal).toList
      (.neg (.neg goal)) := by
    intro v hv
    have hgoal := Satisfies.eval_of_contains hv FormulaSet.contains_insert_self
    simp [Formula.eval, hgoal]
  have hback : Entails (kb.erase goal).toList goal := by
    intro v hv
    simpa [Formula.eval] using Satisfies.eval_of_contains hv hkept
  refine ⟨[.assume goal none, .addStep (.neg (.neg goal)) "" [] "", .discharge,
    .addStep goal "" [] ""], _, ?_, rfl, rfl, FormulaSet.contains_insert_self⟩
  refine ⟨trivial, fun _ t ht => ?_⟩
  obtain ⟨-, rfl⟩ := Prod.mk.inj (Option.some.inj ht)
  refine ⟨hdouble, fun _ t ht => ?_⟩
  obtain ⟨-, rfl⟩ := Prod.mk.inj (Option.some.inj ht)
  refine ⟨trivial, fun _ t ht => ?_⟩
  obtain ⟨-, rfl⟩ := Prod.mk.inj (Option.some.inj ht)
  exact ⟨hback, fun _ _ _ => trivial⟩

/-- **When assumptions can be trusted.**  In a run in which only what follows from the known
formulas is added, these always follow from the axioms and all assumptions ever made.  They follow
from the axioms and the open assumptions, in every state of the run, exactly when each closing is
clean; and then a state with the goal known and no assumption open is a proof.  Without that it is
none: there is such a state for every goal. -/
theorem supported_iff_clean (axioms : List Formula) (goal : Formula) :
    (∀ actions, (Session.start axioms goal).Along Action.Warranted actions →
      (∀ t, (Session.start axioms goal).replay? actions = some t →
        ∀ f ∈ t.state.knowledge.toList, Entails (axioms ++ t.state.assumed) f) ∧
      ((∀ done t, done <+: actions → (Session.start axioms goal).replay? done = some t →
        ∀ f ∈ t.state.knowledge.toList, Entails (axioms ++ t.state.hypotheses) f) ↔
          (Session.start axioms goal).Along (Action.Clean axioms) actions) ∧
      ((Session.start axioms goal).Along (Action.Clean axioms) actions →
        ∀ t, (Session.start axioms goal).replay? actions = some t → t.state.assumptions = [] →
          t.state.isComplete = true → Entails axioms goal)) ∧
    ∃ actions t, (Session.start axioms goal).Along Action.Warranted actions ∧
      (Session.start axioms goal).replay? actions = some t ∧ t.state.assumptions = [] ∧
        t.state.isComplete = true := by
  refine ⟨fun actions hw => ⟨fun t ht => grounded_of_warranted hw ht,
    ⟨Session.along_clean hw, fun hclean done t hdone ht => ?_⟩, fun hclean t ht hnone hgoal => ?_⟩,
    exists_unsupported_run axioms goal⟩
  · exact (supported_of_clean (hw.of_prefix hdone) (hclean.of_prefix hdone) ht).2
  · obtain ⟨hposes, hs⟩ := supported_of_clean hw hclean ht
    rw [ProofState.isComplete, hposes.goal] at hgoal
    simpa [ProofState.hypotheses, hnone] using hs.contains hgoal

/-- After `P` has been assumed and closed again, `Q` is still known, and is taken for a consequence
of `P -> Q`. -/
theorem discharge_leaves_unsupported :
    ¬ ∀ (axioms : List Formula) (goal : Formula) (actions : List Action) (t : Session),
      (Session.start axioms goal).Along Action.Warranted actions →
      (Session.start axioms goal).replay? actions = some t →
        (∀ f ∈ t.state.knowledge.toList, Entails (axioms ++ t.state.hypotheses) f) ∧
        (t.state.assumptions = [] → t.state.isComplete = true → Entails axioms goal) := by
  intro h
  let p : Formula := .var "P"
  let q : Formula := .var "Q"
  have hponens : Entails [.impl p q, p] q := by
    intro v hv
    simpa [Formula.eval, hv p (by simp)] using hv (.impl p q) (by simp)
  have hw : (Session.start [.impl p q] q).Along Action.Warranted
      [.assume p none, .addStep q "modus_ponens" [1, 2] "MP", .discharge] := by
    refine ⟨trivial, fun _ t ht => ?_⟩
    obtain ⟨-, rfl⟩ := Prod.mk.inj (Option.some.inj ht)
    exact ⟨hponens, fun _ _ _ => ⟨trivial, fun _ _ _ => trivial⟩⟩
  have hfollows : Entails [.impl p q] q := (h _ _ _ _ hw rfl).2 rfl (by decide)
  have hfalse : q.eval (fun _ => false) = true := hfollows _ (by simp [p, Formula.eval])
  simp [q, Formula.eval] at hfalse

end AnnealProver
