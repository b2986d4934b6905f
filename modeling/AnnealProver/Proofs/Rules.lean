import AnnealProver.Proof.Rule
import AnnealProver.Proofs.Clauses

/-!
# Every rule draws justified inferences

An inference is **justified** by a knowledge base when its premises are all known there and its
conclusion is true wherever its premises are.  `Rule.apply_justified` says this of every inference
of every rule, with a goal in view or without one: there is one lemma per shape of inference, and
the rules only differ in which of them they list.

The goal never enters the argument.  A rule that is led by a goal only lists fewer inferences, or
builds the goal from parts that are known.
-/

namespace AnnealProver

/-- The premises are known, and the conclusion follows from them. -/
structure Inference.Justified (kb : FormulaSet) (r : Inference) : Prop where
  known : ∀ p ∈ r.premises, kb.contains p = true
  sound : Entails r.premises r.conclusion

lemma FormulaSet.contains_of_mem {kb : FormulaSet} {f : Formula} (h : f ∈ kb.toList) :
    kb.contains f = true :=
  OrderedSet.contains_iff.2 ⟨f, h, f.alike_refl⟩

namespace Inference

variable {kb : FormulaSet} {rule : Rule} {a b c : Formula} {name : String}

lemma Justified.ofOne (ha : kb.contains a = true)
    (h : ∀ v : Valuation, a.eval v = true → c.eval v = true) :
    Justified kb ⟨rule, [a], c, name⟩ := by
  refine ⟨?_, fun v hv => h v (hv a List.mem_cons_self)⟩
  intro p hp
  obtain rfl := List.mem_singleton.1 hp
  exact ha

lemma Justified.ofTwo (ha : kb.contains a = true) (hb : kb.contains b = true)
    (h : ∀ v : Valuation, a.eval v = true → b.eval v = true → c.eval v = true) :
    Justified kb ⟨rule, [a, b], c, name⟩ := by
  refine ⟨?_, fun v hv => h v (hv a (by simp)) (hv b (by simp))⟩
  intro p hp
  rcases List.mem_cons.1 hp with rfl | hp
  · exact ha
  · obtain rfl := List.mem_singleton.1 hp
    exact hb

end Inference

namespace Rule

open Inference FormulaSet

variable {kb : FormulaSet} {goal : Option Formula} {f : Formula} {r : Inference}

/-! ## One formula of the knowledge base at a time -/

lemma ponens_justified (hf : f ∈ kb.toList) (h : r ∈ ponens kb goal f) : r.Justified kb := by
  cases f with
  | impl p q =>
      simp only [ponens, List.mem_ite_nil_right, List.mem_singleton, Bool.and_eq_true] at h
      obtain ⟨⟨hp, -⟩, rfl⟩ := h
      refine .ofTwo hp (contains_of_mem hf) fun v hpv hv => ?_
      simpa [Formula.eval, hpv] using hv
  | _ => simp [ponens] at h

lemma tollens_justified (hf : f ∈ kb.toList) (h : r ∈ tollens kb goal f) : r.Justified kb := by
  cases f with
  | impl p q =>
      simp only [tollens, List.mem_ite_nil_right, List.mem_singleton, Bool.and_eq_true] at h
      obtain ⟨⟨hq, -⟩, rfl⟩ := h
      refine .ofTwo (contains_of_mem hf) hq fun v hv hqv => ?_
      rw [Formula.eval_opposite, Bool.not_eq_true'] at hqv
      simpa [Formula.eval, hqv] using hv
  | _ => simp [tollens] at h

lemma left_justified (hf : f ∈ kb.toList) (h : r ∈ left goal f) : r.Justified kb := by
  cases f with
  | conj p q =>
      simp only [left, List.mem_ite_nil_right, List.mem_singleton] at h
      obtain ⟨-, rfl⟩ := h
      refine .ofOne (contains_of_mem hf) fun v hv => ?_
      rw [Formula.eval, Bool.and_eq_true] at hv
      exact hv.1
  | _ => simp [left] at h

lemma right_justified (hf : f ∈ kb.toList) (h : r ∈ right goal f) : r.Justified kb := by
  cases f with
  | conj p q =>
      simp only [right, List.mem_ite_nil_right, List.mem_singleton] at h
      obtain ⟨-, rfl⟩ := h
      refine .ofOne (contains_of_mem hf) fun v hv => ?_
      rw [Formula.eval, Bool.and_eq_true] at hv
      exact hv.2
  | _ => simp [right] at h

lemma syllogism_justified (hf : f ∈ kb.toList) (h : r ∈ syllogism kb goal f) :
    r.Justified kb := by
  cases f with
  | disj p q =>
      simp only [syllogism, List.mem_append, List.mem_ite_nil_right, List.mem_singleton,
        Bool.and_eq_true] at h
      rcases h with ⟨⟨hp, -⟩, rfl⟩ | ⟨⟨hq, -⟩, rfl⟩
      · refine .ofTwo (contains_of_mem hf) hp fun v hv hpv => ?_
        rw [Formula.eval_opposite, Bool.not_eq_true'] at hpv
        simpa [Formula.eval, hpv] using hv
      · refine .ofTwo (contains_of_mem hf) hq fun v hv hqv => ?_
        rw [Formula.eval_opposite, Bool.not_eq_true'] at hqv
        simpa [Formula.eval, hqv] using hv
  | _ => simp [syllogism] at h

/-- Both conclusions drawn from a contradiction only repeat what is known. -/
lemma contradiction_justified {rule : Rule} (hf : f ∈ kb.toList)
    (h : r ∈ contradiction rule kb f) : r.Justified kb := by
  cases f with
  | neg p =>
      simp only [contradiction, List.mem_ite_nil_right, List.mem_singleton] at h
      obtain ⟨hp, rfl⟩ := h
      refine .ofTwo (contains_of_mem hf) hp fun v hv hpv => ?_
      split_ifs
      · exact hv
      · rw [Formula.eval, hv, hpv, Bool.and_self]
  | _ => simp [contradiction] at h

lemma strip_justified (hf : f ∈ kb.toList) (h : r ∈ strip goal f) : r.Justified kb := by
  cases f with
  | neg g =>
      cases g with
      | neg p =>
          simp only [strip, List.mem_ite_nil_right, List.mem_singleton] at h
          obtain ⟨-, rfl⟩ := h
          refine .ofOne (contains_of_mem hf) fun v hv => ?_
          simpa [Formula.eval] using hv
      | _ => simp [strip] at h
  | _ => simp [strip] at h

/-! ## Building a goal -/

/-- A goal that is true wherever one of its parts is may be built from that part. -/
lemma builds_justified {rule : Rule} {part goal : Formula}
    (hpart : ∀ v : Valuation, part.eval v = true → goal.eval v = true)
    (h : r ∈ builds rule kb part goal) : r.Justified kb := by
  simp only [builds, List.mem_ite_nil_right, List.mem_singleton] at h
  obtain ⟨hknown, rfl⟩ := h
  exact .ofOne hknown hpart

lemma conj_justified {p q : Formula} (hp : kb.contains p = true) (hq : kb.contains q = true) :
    Justified kb ⟨conjIntro, [p, q], .conj p q, ""⟩ := by
  refine .ofTwo hp hq fun v hpv hqv => ?_
  rw [Formula.eval, hpv, hqv, Bool.and_self]

lemma conjunctions_justified (h : r ∈ conjunctions kb goal) : r.Justified kb := by
  unfold conjunctions at h
  split at h
  · simp only [List.mem_ite_nil_right, List.mem_singleton, Bool.and_eq_true] at h
    obtain ⟨⟨hp, hq⟩, rfl⟩ := h
    exact conj_justified hp hq
  · simp only [List.mem_filterMap, Option.ite_none_right_eq_some, Option.some.injEq] at h
    obtain ⟨⟨p, q⟩, hpq, -, rfl⟩ := h
    have hmem := mem_of_mem_pairs hpq
    exact conj_justified (contains_of_mem hmem.1) (contains_of_mem hmem.2)

/-! ## Resolution -/

lemma eval_of_ofFormula? {v : Valuation} {l : Literal} (h : Literal.ofFormula? f = some l) :
    f.eval v = l.eval v := by
  unfold Literal.ofFormula? at h
  split at h
  · obtain rfl := Option.some.inj h
    simp [Formula.eval, Literal.eval]
  · obtain rfl := Option.some.inj h
    simp [Formula.eval, Literal.eval]
  · simp at h

lemma literals?_disj {a b : Formula} {ls : List Literal} :
    literals? (.disj a b) = some ls ↔
      ∃ l m, literals? a = some l ∧ literals? b = some m ∧ l ++ m = ls := by
  cases ha : literals? a <;> cases hb : literals? b <;> simp [literals?, ha, hb]

/-- A disjunction of literals is true exactly when one of the literals is. -/
lemma eval_of_literals? {v : Valuation} {ls : List Literal} (h : literals? f = some ls) :
    f.eval v = ls.any (·.eval v) := by
  induction f generalizing ls with
  | disj a b iha ihb =>
      obtain ⟨l, m, ha, hb, rfl⟩ := literals?_disj.1 h
      rw [Formula.eval, iha ha, ihb hb, List.any_append]
  | _ =>
      obtain ⟨l, hl, rfl⟩ := Option.map_eq_some_iff.1 h
      simpa using eval_of_ofFormula? hl

/-- The members that are clauses are known, and as true as their clauses. -/
lemma clausal_spec {fc : Formula × Clause} (h : fc ∈ clausal kb) :
    kb.contains fc.1 = true ∧ ∀ v : Valuation, fc.1.eval v = fc.2.eval v := by
  simp only [clausal, List.mem_filterMap, Option.map_eq_some_iff] at h
  obtain ⟨g, hg, ls, hls, rfl⟩ := h
  refine ⟨contains_of_mem hg, fun v => ?_⟩
  rw [eval_of_literals? hls, Clause.eval_ofList]

/-- A resolvent follows from the two formulas, also when it is the clause without literals and
stands as a plain contradiction in the conclusion. -/
lemma resolvents_justified {first second : Formula × Clause} (hfirst : first ∈ clausal kb)
    (hsecond : second ∈ clausal kb) (h : r ∈ resolvents goal first second) : r.Justified kb := by
  obtain ⟨hfirst, hfirstEval⟩ := clausal_spec hfirst
  obtain ⟨hsecond, hsecondEval⟩ := clausal_spec hsecond
  simp only [resolvents, List.mem_filterMap] at h
  obtain ⟨name, -, hname⟩ := h
  split at hname
  · rename_i c hc
    simp only [Option.ite_none_right_eq_some, Option.some.injEq] at hname
    obtain ⟨-, rfl⟩ := hname
    refine .ofTwo hfirst hsecond fun v hv hw => ?_
    rw [hfirstEval] at hv
    rw [hsecondEval] at hw
    rw [Clause.eval_toFormula]
    exact Clause.eval_resolve? hc hv hw
  · simp at hname

/-! ## All rules -/

/-- A rule that looks at one member of the knowledge base after the other draws what it draws from
some member. -/
lemma justified_of_mem_flatMap {draw : Formula → List Inference}
    (hdraw : ∀ f ∈ kb.toList, ∀ r ∈ draw f, r.Justified kb) (h : r ∈ kb.toList.flatMap draw) :
    r.Justified kb := by
  obtain ⟨f, hf, hr⟩ := List.mem_flatMap.1 h
  exact hdraw f hf r hr

/-- **Every inference of every rule is justified**, whatever the goal. -/
lemma apply_justified {rule : Rule} (h : r ∈ rule.apply kb goal) : r.Justified kb := by
  cases rule with
  | modusPonens | implElim =>
      exact justified_of_mem_flatMap (fun f hf r hr => ponens_justified hf hr) h
  | modusTollens =>
      exact justified_of_mem_flatMap (fun f hf r hr => tollens_justified hf hr) h
  | conjIntro => exact conjunctions_justified h
  | conjElimLeft => exact justified_of_mem_flatMap (fun f hf r hr => left_justified hf hr) h
  | conjElimRight => exact justified_of_mem_flatMap (fun f hf r hr => right_justified hf hr) h
  | disjElim => exact justified_of_mem_flatMap (fun f hf r hr => syllogism_justified hf hr) h
  | negIntro | negElim =>
      exact justified_of_mem_flatMap (fun f hf r hr => contradiction_justified hf hr) h
  | doubleNegElim => exact justified_of_mem_flatMap (fun f hf r hr => strip_justified hf hr) h
  | resolution =>
      obtain ⟨⟨c, d⟩, hcd, hr⟩ := List.mem_flatMap.1 h
      have hmem := mem_of_mem_pairs hcd
      exact resolvents_justified hmem.1 hmem.2 hr
  | implIntro =>
      unfold apply at h
      split at h <;> simp only [reduceCtorEq, List.not_mem_nil] at *
      refine builds_justified (fun v hv => ?_) h
      rw [Formula.eval, hv, Bool.or_true]
  | disjIntroLeft =>
      unfold apply at h
      split at h <;> simp only [reduceCtorEq, List.not_mem_nil] at *
      refine builds_justified (fun v hv => ?_) h
      rw [Formula.eval, hv, Bool.true_or]
  | disjIntroRight =>
      unfold apply at h
      split at h <;> simp only [reduceCtorEq, List.not_mem_nil] at *
      refine builds_justified (fun v hv => ?_) h
      rw [Formula.eval, hv, Bool.or_true]

/-- **Rules are sound, and honest about their premises.**  Whatever is known and whatever the goal,
all premises of an inference are known, and its conclusion is true under every valuation that makes
them true.  It is also found to be true under every assignment of its names under which they are. -/
theorem apply_draws_consequences (rule : Rule) (kb : FormulaSet) (goal : Option Formula) :
    ∀ r ∈ rule.apply kb goal,
      (∀ p ∈ r.premises, kb.contains p = true) ∧
      (∀ v : Valuation, (∀ p ∈ r.premises, p.eval v = true) → r.conclusion.eval v = true) ∧
      ∀ a : Assignment, (∀ x ∈ r.conclusion.vars.toList, a.contains x = true) →
        (∀ p ∈ r.premises, p.evaluate a = .ok true) → r.conclusion.evaluate a = .ok true := by
  intro r hr
  obtain ⟨hknown, hsound⟩ := apply_justified hr
  refine ⟨hknown, hsound, fun a hnames hpremises => hsound.evaluate_eq hpremises ?_⟩
  exact fun x hx => hnames x (mem_nameSet_ofList.2 hx)

/-- Resolution draws falsity from `P` and `¬P`, in the place of a clause without literals. -/
theorem apply_draws_consequences_falsity :
    let kb : FormulaSet := .ofList [.neg (.var "P"), .var "P"]
    let falsity : Formula := .conj (.var "_FALSE_") (.neg (.var "_FALSE_"))
    ∃ r ∈ resolution.apply kb none, r.conclusion = falsity ∧
      (∀ p ∈ r.premises, kb.contains p = true) ∧
      ∀ v : Valuation, (∀ p ∈ r.premises, p.eval v = true) → falsity.eval v = true := by
  intro kb falsity
  have hr : ⟨resolution, [.neg (.var "P"), .var "P"], falsity, "P"⟩ ∈ resolution.apply kb none :=
    List.mem_singleton.2 rfl
  obtain ⟨hknown, hsound, -⟩ := apply_draws_consequences resolution kb none _ hr
  exact ⟨_, hr, rfl, hknown, hsound⟩

end Rule

end AnnealProver
