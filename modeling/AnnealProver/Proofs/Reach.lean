import AnnealProver.Proofs.Derivations

/-!
# What searches can reach

Two general facts about which goals are proved, one from each side.

**From above** (`prove_cases`): what holds of the axioms and is handed on by inferences without a
goal in view holds of everything that forward search proves, and backward search proves nothing but
what one inference concludes from the axioms.  Since no rule makes a new implication or equivalence
but the one that puts anything in front of a known formula, a search proves only those **arrows**
that are written in the axioms already (`occurs_of_prove`).

**From below** (`prove_of_inevitable`): what a number of rounds must bring to light if all of them
take up every inference is proved as soon as the search is given that many rounds and is not cut
short in any of them.  Which of several alike conclusions is recorded, and in which order, depends
on the priorities, so a goal is asked to be **inevitable**: reached however these choices fall.
-/

namespace AnnealProver

variable {c : SearchConfig} {goal : Formula}

/-! ## What a round adds -/

section Round

variable {rs : List Inference} {s : ProofState} {progress : Bool} {f : Formula}

lemma mem_takeUp_of_mem (h : f ∈ s.knowledge.toList) :
    f ∈ (takeUp goal rs s progress).state.knowledge.toList := by
  fun_induction takeUp goal rs s progress with
  | case1 => exact h
  | case2 r rs s progress hknown ih => exact ih h
  | case3 r rs s progress hnew s' hgoal => exact OrderedSet.mem_insert_of_mem h
  | case4 r rs s progress hnew s' hgoal ih => exact ih (OrderedSet.mem_insert_of_mem h)

lemma mem_or_of_mem_takeUp (h : f ∈ (takeUp goal rs s progress).state.knowledge.toList) :
    f ∈ s.knowledge.toList ∨ ∃ r ∈ rs, r.conclusion = f := by
  fun_induction takeUp goal rs s progress with
  | case1 => exact Or.inl h
  | case2 r rs s progress hknown ih =>
      exact (ih h).imp_right fun ⟨r', hr', hf⟩ => ⟨r', List.mem_cons_of_mem _ hr', hf⟩
  | case3 r rs s progress hnew s' hgoal =>
      exact (OrderedSet.mem_or_eq_of_mem_insert h).imp_right fun hf => ⟨r, by simp, hf.symm⟩
  | case4 r rs s progress hnew s' hgoal ih =>
      rcases ih h with h | ⟨r', hr', hf⟩
      · exact (OrderedSet.mem_or_eq_of_mem_insert h).imp_right fun hf => ⟨r, by simp, hf.symm⟩
      · exact Or.inr ⟨r', List.mem_cons_of_mem _ hr', hf⟩

/-- A round that was not ended by the goal knows all its conclusions. -/
lemma contains_takeUp (h : (takeUp goal rs s progress).reached = false) :
    ∀ r ∈ rs, (takeUp goal rs s progress).state.knowledge.contains r.conclusion = true := by
  fun_induction takeUp goal rs s progress with
  | case1 => simp
  | case2 r rs s progress hknown ih =>
      obtain ⟨f, hf, hfr⟩ := OrderedSet.contains_iff.1 hknown
      exact List.forall_mem_cons.2
        ⟨OrderedSet.contains_iff.2 ⟨f, mem_takeUp_of_mem hf, hfr⟩, ih h⟩
  | case3 r rs s progress hnew s' hgoal => simp at h
  | case4 r rs s progress hnew s' hgoal ih =>
      have hmem : r.conclusion ∈ (s.record r r.conclusion).knowledge.toList :=
        OrderedSet.mem_insert_self (by simpa using hnew)
      exact List.forall_mem_cons.2 ⟨FormulaSet.contains_of_mem (mem_takeUp_of_mem hmem), ih h⟩

lemma takeUp_eq_self (h : (takeUp goal rs s progress).progress = false) :
    (takeUp goal rs s progress).state = s ∧ progress = false := by
  fun_induction takeUp goal rs s progress with
  | case1 => exact ⟨rfl, h⟩
  | case2 r rs s progress hknown ih => exact ih h
  | case3 r rs s progress hnew s' hgoal => simp at h
  | case4 r rs s progress hnew s' hgoal ih => simpa using ih h

end Round

lemma contains_start {axioms : List Formula} {f : Formula} (h : f ∈ axioms) :
    (ProofState.start axioms goal).knowledge.contains f = true := by
  have hrespects := Formula.respects_alike f
  refine OrderedSet.contains_iff.2 ((OrderedSet.exists_ofList hrespects).2 ?_)
  exact (OrderedSet.exists_ofList hrespects).2 ⟨f, h, f.alike_refl⟩

/-! ## What is handed on -/

section Invariant

variable {I : Formula → Prop}

/-- The property is handed on by the inferences that are drawn without a goal in view. -/
def HandedOn (excluded : List String) (I : Formula → Prop) : Prop :=
  ∀ kb : FormulaSet, (∀ f ∈ kb.toList, I f) →
    ∀ r ∈ Rule.applyAll kb none excluded, I r.conclusion

lemma forwardRounds_forall {rounds stalled explored : ℕ} {s : ProofState}
    (hI : HandedOn c.excluded I) (hs : ∀ f ∈ s.knowledge.toList, I f) :
    ∀ f ∈ (forwardRounds c goal rounds stalled s explored).state.knowledge.toList, I f := by
  induction rounds generalizing stalled explored s with
  | zero => exact hs
  | succ rounds ih =>
      rw [forwardRounds]
      by_cases hknown : s.knowledge.contains goal = true
      · simpa only [hknown, if_true] using hs
      · simp only [hknown, Bool.false_eq_true, if_false]
        set round := takeUp goal (takeTo c.maxBranching
          (c.ranked goal (Rule.applyAll s.knowledge none c.excluded))) s false with hround
        have hstate : ∀ f ∈ round.state.knowledge.toList, I f := by
          intro f hf
          rcases mem_or_of_mem_takeUp hf with hf | ⟨r, hr, rfl⟩
          · exact hs f hf
          · exact hI _ hs r (SearchConfig.mem_ranked.1 (mem_of_mem_takeTo hr))
        split_ifs
        · exact hstate
        · exact ih hstate
        · exact ih hstate
        · exact hstate

/-- **What can be proved.**  A goal that was proved has every property of the axioms that inferences
hand on, or one inference with the goal in view concludes it from the axioms. -/
lemma prove_cases {axioms : List Formula} (hrespects : OrderedSet.Respects Formula.alike I)
    (hI : HandedOn c.excluded I) (haxioms : ∀ f ∈ axioms, I f)
    (h : (prove axioms goal c).success = true) :
    I goal ∨ ConcludedAtOnce c goal (ProofState.start axioms goal).knowledge := by
  set s := ProofState.start axioms goal with hstart
  have hs : ∀ f ∈ s.knowledge.toList, I f := fun f hf => haxioms f (mem_of_mem_start hf)
  have hforward : ∀ {rounds explored : ℕ},
      (forwardRounds c goal rounds 0 s explored).success = true → I goal :=
    fun hsuccess => OrderedSet.forall_of_contains hrespects (forwardRounds_forall hI hs)
      (forwardRounds_honest.found hsuccess)
  by_cases hknown : s.knowledge.contains goal = true
  · exact Or.inl (OrderedSet.forall_of_contains hrespects hs hknown)
  rw [prove, ← hstart] at h
  simp only [hknown, Bool.false_eq_true, if_false] at h
  split_ifs at h with hcheck
  cases hstrategy : c.strategy with
  | forward =>
      rw [hstrategy] at h
      exact Or.inl (hforward h)
  | bidirectional =>
      obtain ⟨passed, -, heq⟩ := exists_bidirectionalSearch_eq c goal s
      simp only [hstrategy, heq] at h
      exact Or.inl (hforward h)
  | backward =>
      rw [hstrategy] at h
      have hattempt : Attempt _ _ (descend c (c.maxDepth + 1).toNat goal { state := s }) :=
        descend_attempt
      exact Or.inr ((hattempt.1 h).2.2.resolve_left hknown)

end Invariant

/-- Every inference rests on something. -/
lemma Rule.exists_mem_of_mem_apply {rule : Rule} {kb : FormulaSet} {aim : Option Formula}
    {r : Inference} (h : r ∈ rule.apply kb aim) : ∃ f, f ∈ kb.toList := by
  obtain ⟨p, ps, hp⟩ := List.exists_cons_of_ne_nil (Rule.apply_drawnBy h).premises
  have hknown := (Rule.apply_justified h).known p (by simp [hp])
  exact (OrderedSet.contains_iff.1 hknown).imp fun f hf => hf.1

/-- Without axioms nothing is proved, not even what is always true. -/
lemma prove_nil (goal : Formula) (c : SearchConfig) : (prove [] goal c).success = false := by
  by_contra h
  rw [Bool.not_eq_false] at h
  have hI : HandedOn c.excluded fun _ => False := by
    intro kb hkb r hr
    obtain ⟨rule, -, hr⟩ := List.mem_flatMap.1 hr
    exact (Rule.exists_mem_of_mem_apply hr).elim hkb
  rcases prove_cases (fun _ _ _ => Iff.rfl) hI (by simp) h with hgoal | ⟨rule, -, r, hr, -⟩
  · exact hgoal
  · obtain ⟨f, hf⟩ := Rule.exists_mem_of_mem_apply hr
    exact List.not_mem_nil (mem_of_mem_start hf)

/-! ## Arrows -/

namespace Formula

/-- Whether the formula is an implication or an equivalence. -/
def isArrow : Formula → Bool
  | impl _ _ | iff _ _ => true
  | _ => false

lemma isArrow_eq_of_alike {f g : Formula} (h : f.alike g = true) : f.isArrow = g.isArrow := by
  cases f <;> cases g <;> simp_all [alike, isArrow]

/-- The formula, up to the order of sides, is written somewhere in the axioms. -/
def Occurs (axioms : List Formula) (f : Formula) : Prop :=
  ∃ a ∈ axioms, ∃ g ∈ a.subformulas, g.alike f = true

/-- All arrows inside the formula are written in the axioms. -/
def ArrowsOccur (axioms : List Formula) (f : Formula) : Prop :=
  ∀ g ∈ f.subformulas, g.isArrow = true → Occurs axioms g

variable {axioms : List Formula}

lemma Occurs.of_alike {f g : Formula} (h : Occurs axioms f) (hfg : f.alike g = true) :
    Occurs axioms g := by
  obtain ⟨a, ha, k, hk, hkf⟩ := h
  exact ⟨a, ha, k, hk, alike_trans hkf hfg⟩

lemma ArrowsOccur.of_alike {f g : Formula} (h : ArrowsOccur axioms f) (hfg : f.alike g = true) :
    ArrowsOccur axioms g := by
  intro k hk harrow
  obtain ⟨l, hl, hlk⟩ := exists_alike_subformula hfg hk
  exact (h l hl (by rwa [isArrow_eq_of_alike hlk])).of_alike hlk

lemma respects_arrowsOccur : OrderedSet.Respects alike (ArrowsOccur axioms) :=
  fun _ _ h => ⟨fun hf => hf.of_alike h, fun hg => hg.of_alike (alike_symm h)⟩

lemma arrowsOccur_of_mem {f : Formula} (hf : f ∈ axioms) : ArrowsOccur axioms f :=
  fun g hg _ => ⟨f, hf, g, hg, g.alike_refl⟩

/-- Taking the opposite makes no arrow. -/
lemma mem_subformulas_of_mem_opposite {f g : Formula} (hg : g ∈ f.opposite.subformulas)
    (harrow : g.isArrow = true) : g ∈ f.subformulas := by
  cases f with
  | neg a => exact List.mem_cons_of_mem _ hg
  | _ =>
      -- the opposite has one negation more, which is no arrow
      rcases List.mem_cons.1 hg with rfl | hg
      · simp [isArrow] at harrow
      · exact hg

/-- A clause read as a formula has no arrows. -/
lemma isArrow_of_mem_toFormula {c : Clause} {g : Formula} (hg : g ∈ c.toFormula.subformulas) :
    g.isArrow = false := by
  have hliteral : ∀ l : Literal, ∀ g ∈ l.toFormula.subformulas, g.isArrow = false := by
    rintro ⟨x, _ | _⟩ <;> simp [Literal.toFormula, subformulas, isArrow]
  have hjoined : ∀ (ls : List Literal) (f : Formula), (∀ g ∈ f.subformulas, g.isArrow = false) →
      ∀ g ∈ ((ls.map Literal.toFormula).foldl Connective.disj.apply f).subformulas,
        g.isArrow = false := by
    intro ls
    induction ls with
    | nil => exact fun f hf => hf
    | cons l ls ih =>
        intro f hf
        refine ih _ fun g hg => ?_
        rw [subformulas_apply, List.mem_cons, List.mem_append] at hg
        rcases hg with rfl | hg | hg
        · rfl
        · exact hf g hg
        · exact hliteral l g hg
  rw [Clause.toFormula] at hg
  cases hls : c.toList with
  | nil =>
      rw [hls] at hg
      simp only [join?, List.map_nil, Option.getD_none, subformulas, List.mem_cons,
        List.mem_append, List.not_mem_nil, or_false] at hg
      rcases hg with rfl | rfl | rfl | rfl <;> rfl
  | cons l ls =>
      rw [hls] at hg
      exact hjoined ls _ (hliteral l) g hg

end Formula

/-- Every arrow in the conclusion is written in a premise. -/
def Inference.MakesNoArrow (r : Inference) : Prop :=
  ∀ g ∈ r.conclusion.subformulas, g.isArrow = true → ∃ p ∈ r.premises, g ∈ p.subformulas

namespace Rule

variable {kb : FormulaSet} {aim : Option Formula} {r : Inference}

/-- The rules that look at one member after the other only take formulas apart. -/
lemma makesNoArrow_of_mem_flatMap {draw : Formula → List Inference}
    (hdraw : ∀ f, ∀ r ∈ draw f, r.MakesNoArrow) (h : r ∈ kb.toList.flatMap draw) :
    r.MakesNoArrow := by
  obtain ⟨f, -, hr⟩ := List.mem_flatMap.1 h
  exact hdraw f r hr

lemma conjunctions_makesNoArrow (h : r ∈ conjunctions kb aim) : r.MakesNoArrow := by
  have hconj : ∀ p q, Inference.MakesNoArrow ⟨conjIntro, [p, q], .conj p q, ""⟩ := by
    intro p q g hg harrow
    simp only [Formula.subformulas, List.mem_cons, List.mem_append] at hg
    rcases hg with rfl | hg | hg
    · simp [Formula.isArrow] at harrow
    · exact ⟨p, by simp, hg⟩
    · exact ⟨q, by simp, hg⟩
  unfold conjunctions at h
  split at h
  · simp only [List.mem_ite_nil_right, List.mem_singleton] at h
    obtain ⟨-, rfl⟩ := h
    exact hconj _ _
  · simp only [List.mem_filterMap, Option.ite_none_right_eq_some, Option.some.injEq] at h
    obtain ⟨pq, -, -, rfl⟩ := h
    exact hconj _ _

lemma resolvents_makesNoArrow {first second : Formula × Clause}
    (h : r ∈ resolvents aim first second) : r.MakesNoArrow := by
  simp only [resolvents, List.mem_filterMap] at h
  obtain ⟨name, -, hname⟩ := h
  split at hname
  · simp only [Option.ite_none_right_eq_some, Option.some.injEq] at hname
    obtain ⟨-, rfl⟩ := hname
    intro g hg harrow
    simp [Formula.isArrow_of_mem_toFormula hg] at harrow
  · simp at hname

lemma apply_makesNoArrow {rule : Rule} (h : r ∈ rule.apply kb aim) :
    r.MakesNoArrow ∨ (∃ p q, aim = some (.impl p q) ∧ kb.contains q = true) ∨
      ∃ p q, aim = some (.disj p q) := by
  cases rule with
  | modusPonens | implElim =>
      refine Or.inl (makesNoArrow_of_mem_flatMap (fun f r hr => ?_) h)
      cases f with
      | impl p q =>
          simp only [ponens, List.mem_ite_nil_right, List.mem_singleton] at hr
          obtain ⟨-, rfl⟩ := hr
          exact fun g hg _ => ⟨.impl p q, by simp, by simp [Formula.subformulas, hg]⟩
      | _ => simp [ponens] at hr
  | modusTollens =>
      refine Or.inl (makesNoArrow_of_mem_flatMap (fun f r hr => ?_) h)
      cases f with
      | impl p q =>
          simp only [tollens, List.mem_ite_nil_right, List.mem_singleton] at hr
          obtain ⟨-, rfl⟩ := hr
          intro g hg harrow
          have hp := Formula.mem_subformulas_of_mem_opposite hg harrow
          exact ⟨.impl p q, by simp, by simp [Formula.subformulas, hp]⟩
      | _ => simp [tollens] at hr
  | conjIntro => exact Or.inl (conjunctions_makesNoArrow h)
  | conjElimLeft =>
      refine Or.inl (makesNoArrow_of_mem_flatMap (fun f r hr => ?_) h)
      cases f with
      | conj p q =>
          simp only [left, List.mem_ite_nil_right, List.mem_singleton] at hr
          obtain ⟨-, rfl⟩ := hr
          exact fun g hg _ => ⟨.conj p q, by simp, by simp [Formula.subformulas, hg]⟩
      | _ => simp [left] at hr
  | conjElimRight =>
      refine Or.inl (makesNoArrow_of_mem_flatMap (fun f r hr => ?_) h)
      cases f with
      | conj p q =>
          simp only [right, List.mem_ite_nil_right, List.mem_singleton] at hr
          obtain ⟨-, rfl⟩ := hr
          exact fun g hg _ => ⟨.conj p q, by simp, by simp [Formula.subformulas, hg]⟩
      | _ => simp [right] at hr
  | disjElim =>
      refine Or.inl (makesNoArrow_of_mem_flatMap (fun f r hr => ?_) h)
      cases f with
      | disj p q =>
          simp only [syllogism, List.mem_append, List.mem_ite_nil_right, List.mem_singleton] at hr
          rcases hr with ⟨-, rfl⟩ | ⟨-, rfl⟩ <;>
            exact fun g hg _ => ⟨.disj p q, by simp, by simp [Formula.subformulas, hg]⟩
      | _ => simp [syllogism] at hr
  | negIntro | negElim =>
      refine Or.inl (makesNoArrow_of_mem_flatMap (fun f r hr => ?_) h)
      cases f with
      | neg p =>
          simp only [contradiction, List.mem_ite_nil_right, List.mem_singleton] at hr
          obtain ⟨-, rfl⟩ := hr
          intro g hg harrow
          have hp : g ∈ (Formula.neg p).subformulas := by
            grind [Formula.subformulas, Formula.isArrow]
          exact ⟨.neg p, by simp, hp⟩
      | _ => simp [contradiction] at hr
  | doubleNegElim =>
      refine Or.inl (makesNoArrow_of_mem_flatMap (fun f r hr => ?_) h)
      unfold strip at hr
      split at hr
      · simp only [List.mem_ite_nil_right, List.mem_singleton] at hr
        obtain ⟨-, rfl⟩ := hr
        exact fun g hg _ => ⟨_, List.mem_singleton_self _, by simp [Formula.subformulas, hg]⟩
      · simp at hr
  | resolution =>
      obtain ⟨⟨c, d⟩, -, hr⟩ := List.mem_flatMap.1 h
      exact Or.inl (resolvents_makesNoArrow hr)
  | implIntro | disjIntroLeft | disjIntroRight =>
      unfold apply at h
      split at h <;> simp only [reduceCtorEq, List.not_mem_nil] at *
      grind [builds]

end Rule

/-- Without a goal in view no inference makes an arrow. -/
lemma handedOn_arrowsOccur {axioms : List Formula} {excluded : List String} :
    HandedOn excluded (Formula.ArrowsOccur axioms) := by
  intro kb hkb r hr
  obtain ⟨rule, -, hr⟩ := List.mem_flatMap.1 hr
  have hnone : r.MakesNoArrow := by simpa using Rule.apply_makesNoArrow hr
  intro g hg hgarrow
  obtain ⟨p, hp, hgp⟩ := hnone g hg hgarrow
  exact OrderedSet.forall_of_contains Formula.respects_arrowsOccur hkb
    ((Rule.apply_justified hr).known p hp) g hgp hgarrow

/-- **Searches prove no new arrows.**  An implication or equivalence that was proved is written in
the axioms, or it is an implication whose right side is an axiom. -/
lemma occurs_of_prove {axioms : List Formula} (harrow : goal.isArrow = true)
    (h : (prove axioms goal c).success = true) :
    goal.Occurs axioms ∨ ∃ p q, goal = .impl p q ∧ ∃ f ∈ axioms, f.alike q = true := by
  have hstart : ∀ p, (ProofState.start axioms goal).knowledge.contains p = true →
      ∃ f ∈ axioms, f.alike p = true := fun p hp =>
    (OrderedSet.contains_iff.1 hp).imp fun f hf => ⟨mem_of_mem_start hf.1, hf.2⟩
  rcases prove_cases Formula.respects_arrowsOccur handedOn_arrowsOccur
    (fun f => Formula.arrowsOccur_of_mem) h with hgoal | ⟨rule, -, r, hr, hconclusion⟩
  · exact Or.inl (hgoal goal goal.self_mem_subformulas harrow)
  · rcases Rule.apply_makesNoArrow hr with hnone | ⟨p, q, hgoal, hq⟩ | ⟨p, q, hgoal⟩
    · obtain ⟨p, hp, hrp⟩ := hnone r.conclusion r.conclusion.self_mem_subformulas
        (by rwa [Formula.isArrow_eq_of_alike hconclusion])
      obtain ⟨f, hf, hfp⟩ := hstart p ((Rule.apply_justified hr).known p hp)
      obtain ⟨k, hk, hkr⟩ := Formula.exists_alike_subformula hfp hrp
      exact Or.inl ⟨f, hf, k, hk, Formula.alike_trans hkr hconclusion⟩
    · exact Or.inr ⟨p, q, Option.some.inj hgoal, hstart q hq⟩
    · obtain rfl := Option.some.inj hgoal
      simp [Formula.isArrow] at harrow

/-! ## Full rounds -/

/-- What a round does that takes up every inference: it forgets nothing, knows all conclusions in
some spelling, and knows nothing that does not follow. -/
structure Advances (excluded : List String) (kb kb' : FormulaSet) : Prop where
  keeps : ∀ f ∈ kb.toList, f ∈ kb'.toList
  draws : ∀ r ∈ Rule.applyAll kb none excluded, kb'.contains r.conclusion = true
  follows : ∀ f ∈ kb'.toList, Entails kb.toList f

/-- After so many full rounds the goal is known, whatever they leave open. -/
def Inevitable (excluded : List String) (goal : Formula) : ℕ → FormulaSet → Prop
  | 0, kb => kb.contains goal = true
  | rounds + 1, kb => ∀ kb', Advances excluded kb kb' → Inevitable excluded goal rounds kb'

section Inevitable

variable {excluded : List String} {kb kb' : FormulaSet} {rounds : ℕ}

lemma Advances.contains {f : Formula} (h : Advances excluded kb kb') (hf : kb.contains f = true) :
    kb'.contains f = true := by
  obtain ⟨g, hg, hgf⟩ := OrderedSet.contains_iff.1 hf
  exact OrderedSet.contains_iff.2 ⟨g, h.keeps g hg, hgf⟩

/-- What is known stays known. -/
lemma Inevitable.of_contains (h : kb.contains goal = true) (rounds : ℕ) :
    Inevitable excluded goal rounds kb := by
  induction rounds generalizing kb with
  | zero => exact h
  | succ rounds ih => exact fun kb' hkb' => ih (hkb'.contains h)

/-- Where a round may change nothing, nothing more is to come. -/
lemma Inevitable.contains_of_idle (h : Inevitable excluded goal rounds kb)
    (hidle : Advances excluded kb kb) : kb.contains goal = true := by
  induction rounds with
  | zero => exact h
  | succ rounds ih => exact ih (h kb hidle)

lemma Inference.Justified.entails {r : Inference} (h : r.Justified kb) :
    Entails kb.toList r.conclusion :=
  fun v hv => h.sound v fun p hp => Satisfies.eval_of_contains hv (h.known p hp)

/-- A round that takes up all inferences and is not ended by the goal is full. -/
lemma takeUp_advances {rs : List Inference} {s : ProofState} {progress : Bool}
    (hrs : ∀ r, r ∈ rs ↔ r ∈ Rule.applyAll s.knowledge none excluded)
    (hreached : (takeUp goal rs s progress).reached = false) :
    Advances excluded s.knowledge (takeUp goal rs s progress).state.knowledge where
  keeps := fun f hf => mem_takeUp_of_mem hf
  draws := fun r hr => contains_takeUp hreached r ((hrs r).2 hr)
  follows := by
    intro f hf
    rcases mem_or_of_mem_takeUp hf with hf | ⟨r, hr, rfl⟩
    · exact fun v hv => hv f hf
    · obtain ⟨rule, -, hr⟩ := List.mem_flatMap.1 ((hrs r).1 hr)
      exact (Rule.apply_justified hr).entails

lemma takeTo_eq_self {α : Type} {count : ℕ} {as : List α} (h : as.length ≤ count) :
    takeTo count as = as := by
  rw [takeTo, if_pos (by omega), Int.toNat_natCast]
  exact List.take_of_length_le h

/-- Where the success of a search is decided in its next round, and where it is left to the rounds
after it. -/
lemma success_forwardRounds_succ {stalled explored : ℕ} {s : ProofState} :
    (forwardRounds c goal (rounds + 1) stalled s explored).success =
      let round := takeUp goal (takeTo c.maxBranching
        (c.ranked goal (Rule.applyAll s.knowledge none c.excluded))) s false
      if s.knowledge.contains goal || round.reached then true
      else if round.progress then
        (forwardRounds c goal rounds 0 round.state (explored + 1)).success
      else if stalled < 3 then
        (forwardRounds c goal rounds (stalled + 1) round.state (explored + 1)).success
      else false := by
  rw [forwardRounds]
  by_cases hknown : s.knowledge.contains goal = true
  · simp [hknown]
  · simp only [hknown, Bool.false_eq_true, if_false, Bool.false_or]
    split_ifs <;> rfl

lemma SearchConfig.ranked_width (width : ℤ) :
    ({ c with maxBranching := width } : SearchConfig).ranked goal = c.ranked goal := rfl

/-- Wide enough rounds reach what is inevitable.  No round before that is idle, so the search does
not give up. -/
lemma forwardRounds_of_inevitable {s : ProofState}
    (h : Inevitable c.excluded goal rounds s.knowledge) :
    ∃ enough : ℕ, ∀ width : ℕ, enough ≤ width → ∀ budget stalled explored : ℕ, rounds < budget →
      (forwardRounds { c with maxBranching := width } goal budget stalled s
        explored).success = true := by
  induction rounds generalizing s with
  | zero =>
      refine ⟨0, fun width _ budget stalled explored hbudget => ?_⟩
      obtain ⟨budget, rfl⟩ := Nat.exists_eq_add_one.2 hbudget
      have hknown : s.knowledge.contains goal = true := h
      simp [success_forwardRounds_succ, hknown]
  | succ rounds ih =>
      set rs := c.ranked goal (Rule.applyAll s.knowledge none c.excluded) with hrs
      set round := takeUp goal rs s false with hround
      have hwide : ∀ width : ℕ, rs.length ≤ width →
          takeUp goal (takeTo (width : ℤ) rs) s false = round :=
        fun width hwidth => by rw [takeTo_eq_self hwidth]
      by_cases hdone : (s.knowledge.contains goal || round.reached) = true
      · refine ⟨rs.length, fun width hwidth budget stalled explored hbudget => ?_⟩
        obtain ⟨budget, rfl⟩ := Nat.exists_eq_add_one.2 (Nat.zero_lt_of_lt hbudget)
        simp only [success_forwardRounds_succ, SearchConfig.ranked_width, ← hrs, hwide width hwidth,
          hdone, if_true]
      · obtain ⟨hnew, hunreached⟩ : s.knowledge.contains goal = false ∧ round.reached = false := by
          simpa using hdone
        have hadvances : Advances c.excluded s.knowledge round.state.knowledge :=
          takeUp_advances (fun r => SearchConfig.mem_ranked) hunreached
        have hprogress : round.progress = true := by
          by_contra hidle
          have hstate : round.state = s := (takeUp_eq_self (by simpa using hidle)).1
          rw [hstate] at hadvances
          simp [h.contains_of_idle hadvances] at hnew
        obtain ⟨enough, henough⟩ := ih (h _ hadvances)
        refine ⟨max rs.length enough, fun width hwidth budget stalled explored hbudget => ?_⟩
        obtain ⟨budget, rfl⟩ := Nat.exists_eq_add_one.2 (Nat.zero_lt_of_lt hbudget)
        have hrest := henough width (by omega) budget 0 (explored + 1) (by omega)
        simp only [success_forwardRounds_succ, SearchConfig.ranked_width, ← hrs,
          hwide width (by omega), hprogress, hrest, if_true, ite_self]

end Inevitable

/-- **Enough rounds of enough width prove what is inevitable.** -/
lemma prove_of_inevitable {axioms : List Formula} {rounds : ℕ} (hgoal : Entails axioms goal)
    (h : Inevitable c.excluded goal rounds (ProofState.start axioms goal).knowledge) :
    ∃ steps width : ℕ,
      (prove axioms goal
        { c with strategy := .forward, maxSteps := steps, maxBranching := width }).success =
          true := by
  obtain ⟨width, hwidth⟩ := forwardRounds_of_inevitable
    (c := { c with strategy := .forward, maxSteps := (rounds + 1 : ℕ) }) h
  refine ⟨rounds + 1, width, ?_⟩
  have hentails : Formula.entails axioms goal = true := Formula.entails_iff.2 hgoal
  rw [prove]
  simp only [hentails, Bool.not_true, Bool.and_false, Bool.false_eq_true, if_false]
  split_ifs
  · rfl
  · exact hwidth width le_rfl _ 0 0 (by simp)

end AnnealProver
