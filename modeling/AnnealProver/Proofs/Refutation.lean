import Mathlib.Data.Fintype.BigOperators
import Mathlib.Data.Fintype.Option
import AnnealProver.Proofs.NormalForm

/-!
# Resolution refutes exactly the unsatisfiable clause sets

**Soundness** is an invariant of the rounds: a valuation that makes the clauses true makes their
resolvents true, so the clause without literals is never found.

**Completeness** comes in three parts.  A round that finds nothing new leaves a set that is
**saturated** (`saturated_of_round`): although only one clashing name is tried for two clauses, and
only in one order, nothing is missed, because two clauses that clash on more than one name have only
resolvents that are true anyway.  A saturated set without the empty clause has a model
(`Saturated.exists_model`), found name by name.  And every other round adds a clause, of which there
are fewer than `3 ^ n` over `n` names (`Proper.length_lt`): in a clause that is not true anyway a
name is positive, negated or absent.

All of this is for any schedule.
-/

namespace AnnealProver

/-- The clauses, in the order in which they arrived, that a refutation has so far. -/
abbrev ClauseSet := OrderedSet Clause.same

variable {plan : Schedule} {clauses : ClauseSet} {v : Valuation}

/-! ## What a round finds -/

lemma mem_of_mem_untilRefuted {rs : List Resolvent} {r : Resolvent} (h : r ∈ untilRefuted rs) :
    r ∈ rs := by
  induction rs with
  | nil => simp [untilRefuted] at h
  | cons r' rs ih =>
      rw [untilRefuted] at h
      split_ifs at h
      · rw [List.mem_singleton.1 h]
        exact List.mem_cons_self
      · rcases List.mem_cons.1 h with rfl | h
        · exact List.mem_cons_self
        · exact List.mem_cons_of_mem _ (ih h)

/-- Without a refutation nothing is cut off. -/
lemma untilRefuted_eq_self {rs : List Resolvent}
    (h : ∀ r ∈ untilRefuted rs, r.result.isEmpty = false) : untilRefuted rs = rs := by
  induction rs with
  | nil => rfl
  | cons r rs ih =>
      rw [untilRefuted] at h ⊢
      split_ifs at h ⊢ with hempty
      · simp [hempty] at h
      · rw [ih fun r' hr' => h r' (List.mem_cons_of_mem _ hr')]

/-- What a round finds are resolvents of clauses of the set. -/
lemma resolve?_of_mem_round {r : Resolvent} (h : r ∈ plan.round clauses) :
    ∃ c ∈ clauses.toList, ∃ d ∈ clauses.toList, ∃ x, c.resolve? d x = some r.result := by
  obtain ⟨⟨c, d⟩, hcd, hr⟩ := List.mem_filterMap.1 (mem_of_mem_untilRefuted h)
  have hmem := mem_of_mem_pairs hcd
  simp only [(plan.order_perm clauses).mem_iff] at hmem
  refine ⟨c, hmem.1, d, hmem.2, ?_⟩
  unfold resolventOf? at hr
  split at hr
  · simp at hr
  · rename_i name hname
    simp only [Option.ite_none_left_eq_some, Option.map_eq_some_iff] at hr
    obtain ⟨-, result, hresult, rfl⟩ := hr
    exact ⟨name, hresult⟩

/-! ## Soundness -/

lemma eval_of_mem_round (hv : ∀ c ∈ clauses.toList, c.eval v = true) {r : Resolvent}
    (h : r ∈ plan.round clauses) : r.result.eval v = true := by
  obtain ⟨c, hc, d, hd, x, hr⟩ := resolve?_of_mem_round h
  exact Clause.eval_resolve? hr (hv c hc) (hv d hd)

/-- The clauses kept from a round. -/
def Schedule.fresh (plan : Schedule) (clauses : ClauseSet) : List Clause :=
  ((plan.round clauses).map (·.result)).filter fun r => !clauses.contains r && !r.isTautology

lemma mem_fresh {r : Clause} :
    r ∈ plan.fresh clauses ↔ (∃ s ∈ plan.round clauses, s.result = r) ∧
      clauses.contains r = false ∧ r.isTautology = false := by
  simp [Schedule.fresh]

/-- One round, by what it found. -/
lemma refuteFrom_succ (rounds : ℕ) (steps : List Resolvent) :
    (refuteFrom plan (rounds + 1) clauses steps).1 =
      if (plan.round clauses).any fun r => r.result.isEmpty then true
      else if (plan.fresh clauses).isEmpty then false
      else (refuteFrom plan rounds (clauses.insertAll (plan.fresh clauses))
        (steps ++ plan.round clauses)).1 := by
  rw [refuteFrom]
  simp only [apply_ite Prod.fst]
  rfl

/-- A refutation is never found where there is a model. -/
lemma refuteFrom_of_model {rounds : ℕ} {steps : List Resolvent}
    (hv : ∀ c ∈ clauses.toList, c.eval v = true) :
    (refuteFrom plan rounds clauses steps).1 = false := by
  induction rounds generalizing clauses steps with
  | zero => rfl
  | succ rounds ih =>
      rw [refuteFrom_succ]
      split_ifs with hrefuted hstable
      · obtain ⟨r, hr, hempty⟩ := List.any_eq_true.1 hrefuted
        obtain ⟨l, hl, -⟩ := Clause.eval_iff.1 (eval_of_mem_round hv hr)
        exact absurd hl (Clause.isEmpty_iff.1 hempty l)
      · rfl
      · refine ih ((OrderedSet.forall_insertAll (Clause.respects_eval v)).2 ⟨hv, fun c hc => ?_⟩)
        obtain ⟨⟨r, hr, rfl⟩, -⟩ := mem_fresh.1 hc
        exact eval_of_mem_round hv hr

/-! ## Saturation -/

/-- What a refutation keeps of its clauses: each has a literal, none is true anyway, and all names
are non-empty and among the given ones. -/
structure Proper (names : List String) (clauses : ClauseSet) : Prop where
  nonempty : ∀ c ∈ clauses.toList, c.isEmpty = false
  reduced : ∀ c ∈ clauses.toList, c.isTautology = false
  named : ∀ c ∈ clauses.toList, ∀ l ∈ c.toList, l.name ≠ "" ∧ l.name ∈ names

/-- The literals that a resolvent of `c` and `d` on `x` is made of, when `c` has `x` with the sign
`b` and `d` with the other one. -/
def Rest (c d : Clause) (x : String) (b : Bool) (l : Literal) : Prop :=
  (l ∈ c.toList ∧ l ≠ ⟨x, b⟩) ∨ (l ∈ d.toList ∧ l ≠ ⟨x, !b⟩)

/-- Where two clauses are false but for a clash, the set has a clause made of what is left of
them. -/
def Saturated (clauses : ClauseSet) : Prop :=
  ∀ c ∈ clauses.toList, ∀ d ∈ clauses.toList, ∀ x b, ⟨x, b⟩ ∈ c.toList → ⟨x, !b⟩ ∈ d.toList →
    ∀ v : Valuation, (∀ l, Rest c d x b l → l.eval v = false) →
      ∃ e ∈ clauses.toList, ∀ l ∈ e.toList, Rest c d x b l

lemma rest_swap {c d : Clause} {x : String} {b : Bool} {l : Literal} :
    Rest d c x (!b) l ↔ Rest c d x b l := by
  simp only [Rest, Bool.not_not]
  exact or_comm

/-- Clauses that are false but for a clash on one name do not clash on another: the two literals
with that name would both be left, and both be false. -/
lemma clash_unique {c d : Clause} {x y : String} {b : Bool}
    (hfalse : ∀ l, Rest c d x b l → l.eval v = false) (hy : y ∈ (c.clashes d).toList) : y = x := by
  obtain ⟨b', hc, hd⟩ := Clause.mem_clashes.1 hy
  by_contra hne
  have hleft := hfalse ⟨y, b'⟩ (Or.inl ⟨hc, by simp [hne]⟩)
  have hright := hfalse ⟨y, !b'⟩ (Or.inr ⟨hd, by simp [hne]⟩)
  rw [Literal.eval_flip, hleft] at hright
  simp at hright

/-- The literals of a resolvent on a name, by the sign that the name is known to have. -/
lemma rest_of_resolve? {c d r : Clause} {x : String} {b : Bool} (hc : c.isTautology = false)
    (hcx : ⟨x, b⟩ ∈ c.toList) (h : c.resolve? d x = some r) :
    ∀ l, l ∈ r.toList ↔ Rest c d x b l := by
  obtain ⟨b', hcx', -, hr⟩ := Clause.mem_resolve? h
  have hsign : b' = b := by
    by_contra hne
    rw [Bool.eq_not.2 hne] at hcx'
    exact Clause.not_mem_flip hc hcx hcx'
  rw [← hsign]
  exact hr

/-- What two clauses of the set that were paired in a quiet round, with nothing refuted and nothing
fresh, leave over is in the set. -/
lemma exists_of_mem_pairs {names : List String} (hproper : Proper names clauses)
    (hquiet : ∀ r ∈ plan.round clauses, r.result.isEmpty = false)
    (hstable : plan.fresh clauses = []) {c d : Clause} (hcd : (c, d) ∈ pairs (plan.order clauses))
    {x : String} {b : Bool} (hc : ⟨x, b⟩ ∈ c.toList) (hd : ⟨x, !b⟩ ∈ d.toList)
    (hfalse : ∀ l, Rest c d x b l → l.eval v = false) :
    ∃ e ∈ clauses.toList, ∀ l ∈ e.toList, Rest c d x b l := by
  have hmem : c ∈ clauses.toList := (plan.order_perm clauses).mem_iff.1 (mem_of_mem_pairs hcd).1
  have hclash : x ∈ (c.clashes d).toList := Clause.mem_clashes.2 ⟨b, hc, hd⟩
  -- whatever the schedule picks, it is `x`
  have hpick : plan.clash? clauses c d = some x := by
    cases hname : plan.clash? clauses c d with
    | none => simp [plan.clash?_none _ _ _ hname] at hclash
    | some y => rw [clash_unique hfalse (plan.clash?_mem _ _ _ _ hname)]
  obtain ⟨r, hr⟩ := Clause.exists_resolve? hclash
  have hx : x.isEmpty = false := by simpa using (hproper.named c hmem _ hc).1
  have hfound : (⟨c, d, r⟩ : Resolvent) ∈ plan.round clauses := by
    rw [Schedule.round, untilRefuted_eq_self hquiet]
    refine List.mem_filterMap.2 ⟨(c, d), hcd, ?_⟩
    simp [resolventOf?, hpick, hx, hr]
  have hrest := rest_of_resolve? (hproper.reduced c hmem) hc hr
  have hreduced : r.isTautology = false := by
    by_contra htaut
    rw [Bool.not_eq_false] at htaut
    obtain ⟨l, hl, hlv⟩ := Clause.eval_iff.1 (Clause.eval_of_isTautology (v := v) htaut)
    simp [hfalse l ((hrest l).1 hl)] at hlv
  have hknown : clauses.contains r = true := by
    by_contra hnew
    rw [Bool.not_eq_true] at hnew
    have : r ∈ plan.fresh clauses := mem_fresh.2 ⟨⟨_, hfound, rfl⟩, hnew, hreduced⟩
    simp [hstable] at this
  obtain ⟨e, he, hsame⟩ := OrderedSet.contains_iff.1 hknown
  exact ⟨e, he, fun l hl => (hrest l).1 ((Clause.same_iff.1 hsame l).1 hl)⟩

/-- **A quiet round means saturation**, whichever name is tried for two clauses and in whichever
order they are paired. -/
lemma saturated_of_round {names : List String} (hproper : Proper names clauses)
    (hquiet : ∀ r ∈ plan.round clauses, r.result.isEmpty = false)
    (hstable : plan.fresh clauses = []) : Saturated clauses := by
  intro c hc d hd x b hcx hdx v hfalse
  have hne : c ≠ d := by
    rintro rfl
    exact Clause.not_mem_flip (hproper.reduced c hc) hcx hdx
  have hmem := fun e => (plan.order_perm clauses).mem_iff (a := e)
  rcases mem_pairs_of_ne ((hmem c).2 hc) ((hmem d).2 hd) hne with hcd | hdc
  · exact exists_of_mem_pairs hproper hquiet hstable hcd hcx hdx hfalse
  · obtain ⟨e, he, hrest⟩ := exists_of_mem_pairs hproper hquiet hstable hdc hdx
      (by simpa using hcx) fun l hl => hfalse l (rest_swap.1 hl)
    exact ⟨e, he, fun l hl => rest_swap.1 (hrest l hl)⟩

/-! ## Models of saturated sets -/

lemma Literal.eval_update (x : String) (b : Bool) (l : Literal) :
    l.eval (Function.update v x b) = if l.name = x then b == l.positive else l.eval v := by
  simp only [Literal.eval]
  split_ifs with h
  · rw [h, Function.update_self]
  · rw [Function.update_of_ne h]

/-- A clause that only the value of `x` makes false holds `x` with the sign that this value makes
false, and is false before but for that literal. -/
lemma mem_of_eval_update {c : Clause} {x : String} {b : Bool}
    (hfalse : c.eval (Function.update v x b) = false)
    (htrue : (∀ l ∈ c.toList, l.name ≠ x) → c.eval v = true) :
    ⟨x, !b⟩ ∈ c.toList ∧ ∀ l ∈ c.toList, l ≠ ⟨x, !b⟩ → l.name ≠ x ∧ l.eval v = false := by
  have hliterals : ∀ l ∈ c.toList, l.eval (Function.update v x b) = false := by
    simpa [Clause.eval] using hfalse
  have hothers : ∀ l ∈ c.toList, l ≠ ⟨x, !b⟩ → l.name ≠ x ∧ l.eval v = false := by
    rintro ⟨y, b'⟩ hl hne
    have hl := hliterals _ hl
    rw [Literal.eval_update] at hl
    split_ifs at hl with hy
    · subst hy
      cases b <;> cases b' <;> simp_all
    · exact ⟨hy, hl⟩
  refine ⟨?_, hothers⟩
  by_contra hnot
  have hne : ∀ l ∈ c.toList, l ≠ ⟨x, !b⟩ := fun l hl h => hnot (h ▸ hl)
  obtain ⟨l, hl, hlv⟩ := Clause.eval_iff.1 (htrue fun l hl => (hothers l hl (hne l hl)).1)
  simp [(hothers l hl (hne l hl)).2] at hlv

/-- **A saturated set without the empty clause has a model.**  The names are given values one after
the other, keeping true every clause whose names all have one.  If neither value of the next name
did, the two clauses that fail would leave a clause over the earlier names that is false already. -/
lemma Saturated.exists_model (hsaturated : Saturated clauses)
    (hnonempty : ∀ c ∈ clauses.toList, c.isEmpty = false) (names : List String) :
    ∃ v : Valuation, ∀ c ∈ clauses.toList, (∀ l ∈ c.toList, l.name ∈ names) →
      c.eval v = true := by
  induction names with
  | nil =>
      refine ⟨fun _ => false, fun c hc hnames => ?_⟩
      have hempty : c.isEmpty = true :=
        Clause.isEmpty_iff.2 fun l hl => List.not_mem_nil (hnames l hl)
      simp [hnonempty c hc] at hempty
  | cons x names ih =>
      obtain ⟨v, hv⟩ := ih
      by_contra hnone
      -- for each value of `x`, a clause that it makes false
      have hfails : ∀ b, ∃ c ∈ clauses.toList, ⟨x, !b⟩ ∈ c.toList ∧
          ∀ l ∈ c.toList, l ≠ ⟨x, !b⟩ → l.name ∈ names ∧ l.eval v = false := by
        intro b
        have hb : ¬ ∀ c ∈ clauses.toList, (∀ l ∈ c.toList, l.name ∈ x :: names) →
            c.eval (Function.update v x b) = true := fun h => hnone ⟨_, h⟩
        simp only [not_forall, Bool.not_eq_true, exists_prop] at hb
        obtain ⟨c, hc, hnames, hfalse⟩ := hb
        have hearlier : ∀ l ∈ c.toList, l.name ≠ x → l.name ∈ names :=
          fun l hl hne => (List.mem_cons.1 (hnames l hl)).resolve_left hne
        obtain ⟨hmem, hothers⟩ := mem_of_eval_update hfalse fun hne =>
          hv c hc fun l hl => hearlier l hl (hne l hl)
        exact ⟨c, hc, hmem, fun l hl hne =>
          ⟨hearlier l hl (hothers l hl hne).1, (hothers l hl hne).2⟩⟩
      obtain ⟨c, hc, hcx, hcrest⟩ := hfails false
      obtain ⟨d, hd, hdx, hdrest⟩ := hfails true
      have hrest : ∀ l, Rest c d x true l → l.name ∈ names ∧ l.eval v = false := by
        rintro l (⟨hl, hne⟩ | ⟨hl, hne⟩)
        · exact hcrest l hl hne
        · exact hdrest l hl hne
      obtain ⟨e, he, hel⟩ := hsaturated c hc d hd x true hcx hdx v fun l hl => (hrest l hl).2
      obtain ⟨l, hl, hlv⟩ :=
        Clause.eval_iff.1 (hv e he fun l hl => (hrest l (hel l hl)).1)
      simp [(hrest l (hel l hl)).2] at hlv

/-! ## How many clauses there are -/

/-- How a name occurs in a clause. -/
def Clause.sign (c : Clause) (x : String) : Option Bool :=
  if c.contains ⟨x, true⟩ then some true
  else if c.contains ⟨x, false⟩ then some false
  else none

/-- A clause that is not true anyway is determined by how the names occur in it. -/
lemma Clause.mem_iff_sign {c : Clause} (h : c.isTautology = false) (l : Literal) :
    l ∈ c.toList ↔ c.sign l.name = some l.positive := by
  have hone : ¬ (⟨l.name, true⟩ ∈ c.toList ∧ ⟨l.name, false⟩ ∈ c.toList) := by
    intro hboth
    simp [isTautology_iff.2 ⟨l.name, hboth⟩] at h
  obtain ⟨x, b⟩ := l
  simp only [sign, contains_iff_mem]
  split_ifs with htrue hfalse
  · cases b <;> simp_all
  · cases b <;> simp_all
  · cases b <;> simp_all

lemma Clause.same_of_sign {c d : Clause} {names : List String} (hc : c.isTautology = false)
    (hd : d.isTautology = false) (hcnames : ∀ l ∈ c.toList, l.name ∈ names)
    (hdnames : ∀ l ∈ d.toList, l.name ∈ names) (h : ∀ x ∈ names, c.sign x = d.sign x) :
    c.same d = true := by
  refine same_iff.2 fun l => ⟨fun hl => ?_, fun hl => ?_⟩
  · rw [mem_iff_sign hd, ← h _ (hcnames l hl), ← mem_iff_sign hc]
    exact hl
  · rw [mem_iff_sign hc, h _ (hdnames l hl), ← mem_iff_sign hd]
    exact hl

/-- Together with the clause without literals there are at most three to the number of names. -/
lemma Proper.length_lt {names : List String} (h : Proper names clauses) :
    clauses.toList.length < 3 ^ names.length := by
  let signs : Clause → Fin names.length → Option Bool := fun c i => c.sign (names.get i)
  have hreduced : ∀ c ∈ Clause.ofList [] :: clauses.toList, c.isTautology = false :=
    List.forall_mem_cons.2 ⟨rfl, h.reduced⟩
  have hnamed : ∀ c ∈ Clause.ofList [] :: clauses.toList, ∀ l ∈ c.toList, l.name ∈ names :=
    List.forall_mem_cons.2 ⟨by simp, fun c hc l hl => (h.named c hc l hl).2⟩
  have hdistinct : (Clause.ofList [] :: clauses.toList).Pairwise
      fun c d => c.same d = false := by
    refine List.pairwise_cons.2 ⟨fun c hc => ?_, clauses.distinct⟩
    by_contra hsame
    have hempty : c.isEmpty = true := by
      refine Clause.isEmpty_iff.2 fun l hl => ?_
      have := (Clause.same_iff.1 (by simpa using hsame) l).2 hl
      simp at this
    simp [h.nonempty c hc] at hempty
  have hnodup : ((Clause.ofList [] :: clauses.toList).map signs).Nodup := by
    refine List.pairwise_map.2 (hdistinct.imp_of_mem fun {c d} hc hd hne heq => ?_)
    have hsame : c.same d = true := by
      refine Clause.same_of_sign (hreduced c hc) (hreduced d hd) (hnamed c hc) (hnamed d hd) ?_
      intro x hx
      obtain ⟨i, rfl⟩ := List.mem_iff_get.1 hx
      exact congrFun heq i
    simp [hne] at hsame
  have hcard : clauses.toList.length + 1 ≤ 3 ^ names.length := by
    simpa using hnodup.length_le_card
  exact Nat.lt_of_succ_le hcard

/-! ## Rounds -/

lemma length_le_insertAll (cs : List Clause) :
    clauses.toList.length ≤ (clauses.insertAll cs).toList.length := by
  induction cs generalizing clauses with
  | nil => exact le_refl _
  | cons c cs ih =>
      have hinsert : clauses.toList.length ≤ (clauses.insert c).toList.length := by
        rw [OrderedSet.toList_insert]
        split_ifs <;> simp
      exact le_trans hinsert ih

/-- A round that is not the last one makes the set larger. -/
lemma length_lt_insertAll_fresh (h : plan.fresh clauses ≠ []) :
    clauses.toList.length < (clauses.insertAll (plan.fresh clauses)).toList.length := by
  obtain ⟨c, cs, hfresh⟩ := List.exists_cons_of_ne_nil h
  have hnew : clauses.contains c = false := by
    have hc : c ∈ plan.fresh clauses := by
      rw [hfresh]
      exact List.mem_cons_self
    exact (mem_fresh.1 hc).2.1
  have hinsert : (clauses.insert c).toList.length = clauses.toList.length + 1 := by
    rw [OrderedSet.toList_insert, hnew]
    simp
  have hrest : (clauses.insert c).toList.length ≤ ((clauses.insert c).insertAll cs).toList.length :=
    length_le_insertAll cs
  rw [hfresh]
  exact lt_of_lt_of_le (by omega) hrest

lemma Proper.insertAll_fresh {names : List String} (h : Proper names clauses)
    (hquiet : ∀ r ∈ plan.round clauses, r.result.isEmpty = false) :
    Proper names (clauses.insertAll (plan.fresh clauses)) := by
  have hfresh : ∀ c ∈ (clauses.insertAll (plan.fresh clauses)).toList,
      c ∈ clauses.toList ∨ c ∈ plan.fresh clauses :=
    fun c hc => OrderedSet.mem_or_mem_of_mem_insertAll hc
  refine ⟨fun c hc => ?_, fun c hc => ?_, fun c hc => ?_⟩
  · rcases hfresh c hc with hc | hc
    · exact h.nonempty c hc
    · obtain ⟨⟨r, hr, rfl⟩, -⟩ := mem_fresh.1 hc
      exact hquiet r hr
  · rcases hfresh c hc with hc | hc
    · exact h.reduced c hc
    · exact (mem_fresh.1 hc).2.2
  · rcases hfresh c hc with hc | hc
    · exact h.named c hc
    · obtain ⟨⟨r, hr, rfl⟩, -⟩ := mem_fresh.1 hc
      obtain ⟨c, hc, d, hd, x, hresolve⟩ := resolve?_of_mem_round hr
      obtain ⟨b, -, -, hliterals⟩ := Clause.mem_resolve? hresolve
      intro l hl
      rcases (hliterals l).1 hl with ⟨hl, -⟩ | ⟨hl, -⟩
      · exact h.named c hc l hl
      · exact h.named d hd l hl

/-- Where there is no model, as many rounds as there can still be clauses find a refutation. -/
lemma refuteFrom_of_no_model {names : List String} {rounds : ℕ} {steps : List Resolvent}
    (hproper : Proper names clauses) (hrounds : 3 ^ names.length ≤ rounds + clauses.toList.length)
    (hmodel : ¬ ∃ v : Valuation, ∀ c ∈ clauses.toList, c.eval v = true) :
    (refuteFrom plan rounds clauses steps).1 = true := by
  induction rounds generalizing clauses steps with
  | zero =>
      have := hproper.length_lt
      omega
  | succ rounds ih =>
      rw [refuteFrom_succ]
      split_ifs with hrefuted hstable
      · rfl
      · have hquiet : ∀ r ∈ plan.round clauses, r.result.isEmpty = false := by
          simpa using hrefuted
        have hsaturated := saturated_of_round hproper hquiet (List.isEmpty_iff.1 hstable)
        obtain ⟨v, hv⟩ := hsaturated.exists_model hproper.nonempty names
        refine absurd ⟨v, fun c hc => ?_⟩ hmodel
        exact hv c hc fun l hl => (hproper.named c hc l hl).2
      · have hquiet : ∀ r ∈ plan.round clauses, r.result.isEmpty = false := by
          simpa using hrefuted
        have hlonger : clauses.toList.length <
            (clauses.insertAll (plan.fresh clauses)).toList.length :=
          length_lt_insertAll_fresh fun h => hstable (List.isEmpty_iff.2 h)
        refine ih (hproper.insertAll_fresh hquiet) (by omega) ?_
        rintro ⟨v, hv⟩
        exact hmodel ⟨v, fun c hc => hv c (OrderedSet.mem_insertAll_of_mem hc)⟩

/-! ## The decision -/

lemma Cnf.mem_vars {f : Cnf} {c : Clause} {l : Literal} (hc : c ∈ f.toList) (hl : l ∈ c.toList) :
    l.name ∈ f.vars.toList :=
  mem_vars_iff.2 ⟨c, hc, l, hl, rfl⟩

/-- **Resolution decides satisfiability.**  Of a clause set whose clauses are not empty, not true
anyway and without empty names, and on any schedule: a refutation found in any number of rounds
means that the set has no model, and `3 ^ n` rounds for `n` names find a refutation exactly when
there is no model. -/
theorem refute_decides (plan : Schedule) (f : Cnf)
    (hnonempty : ∀ c ∈ f.toList, c.isEmpty = false)
    (hreduced : ∀ c ∈ f.toList, c.isTautology = false)
    (hnames : ∀ c ∈ f.toList, ∀ l ∈ c.toList, l.name ≠ "") (rounds : Int) :
    ((f.refuteBy plan rounds).1 = true → ¬ ∃ v : Valuation, f.eval v = true) ∧
      (3 ^ f.vars.size ≤ rounds →
        ((f.refuteBy plan rounds).1 = true ↔ ¬ ∃ v : Valuation, f.eval v = true)) := by
  have hsound : (f.refuteBy plan rounds).1 = true → ¬ ∃ v : Valuation, f.eval v = true := by
    rintro hrefuted ⟨v, hv⟩
    have hfalse : (f.refuteBy plan rounds).1 = false := refuteFrom_of_model (Cnf.eval_iff.1 hv)
    simp [hrefuted] at hfalse
  refine ⟨hsound, fun hrounds => ⟨hsound, fun hmodel => ?_⟩⟩
  have hproper : Proper f.vars.toList f.clauses :=
    ⟨hnonempty, hreduced, fun c hc l hl => ⟨hnames c hc l hl, Cnf.mem_vars hc hl⟩⟩
  refine refuteFrom_of_no_model hproper ?_ fun ⟨v, hv⟩ => hmodel ⟨v, Cnf.eval_iff.2 hv⟩
  have hcast : ((3 ^ f.vars.size : ℕ) : ℤ) ≤ rounds := by
    push_cast
    exact hrounds
  have hsize : f.vars.toList.length = f.vars.size := rfl
  rw [hsize]
  omega

/-- All four clauses over two names: nine rounds are enough, and there is no model. -/
theorem refute_decides_two_names :
    let f := Cnf.ofList [.ofList [⟨"P", true⟩, ⟨"Q", true⟩], .ofList [⟨"P", false⟩, ⟨"Q", true⟩],
      .ofList [⟨"P", true⟩, ⟨"Q", false⟩], .ofList [⟨"P", false⟩, ⟨"Q", false⟩]]
    3 ^ f.vars.size ≤ (9 : Int) ∧ (f.refute 9).1 = true ∧ ¬ ∃ v : Valuation, f.eval v = true := by
  intro f
  have hdecides := refute_decides .arrival f (by decide) (by decide) (by decide) 9
  have hrounds : 3 ^ f.vars.size ≤ (9 : Int) := by decide
  have hrefuted : (f.refute 9).1 = true := by decide
  exact ⟨hrounds, hrefuted, (hdecides.2 hrounds).1 hrefuted⟩

end AnnealProver
