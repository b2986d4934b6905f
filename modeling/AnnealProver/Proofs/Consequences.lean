import AnnealProver.Proofs.Reach
import AnnealProver.Proofs.Refutation

/-!
# Which consequences searches find

Resolution is complete, but a search is more than resolution and less than natural deduction.  It is
**complete for refuting clauses**: from disjunctions of literals it derives falsity when they
contradict each other, and every literal that follows when they do not.  It is complete no further:
what it proves beyond that is bounded by what is written in the axioms (`occurs_of_prove`), so it
proves nothing at all from no axioms.

The first half follows a refutation step by step.  To prove the clause `c`, look at how the axioms
are refuted together with the opposites of the literals of `c` (`denial`).  The search does not know
these opposites, but it keeps up with the refutation all the same: for every clause found there it
knows one with no other literals, apart from those of `c` (`Subsumed`).  Where the refutation finds
the clause without literals, the search knows a clause with only literals of `c`.

A literal in a disjunction must not be repeated: from `P | P` no rule concludes `P`.
-/

namespace AnnealProver

variable {f g : Formula} {ls ms : List Literal}

/-! ## Formulas that are clauses -/

namespace Rule

@[simp] lemma literals?_literal (l : Literal) : literals? l.toFormula = some [l] := by
  rcases l with ⟨x, _ | _⟩ <;> rfl

lemma literals?_ne_nil (h : literals? f = some ls) : ls ≠ [] := by
  induction f generalizing ls with
  | disj a b iha ihb =>
      obtain ⟨l, m, ha, -, rfl⟩ := literals?_disj.1 h
      simp [iha ha]
  | _ =>
      obtain ⟨l, -, rfl⟩ := Option.map_eq_some_iff.1 h
      simp

/-- Only a literal has no more than one literal. -/
lemma eq_literal_of_literals? {l : Literal} (h : literals? f = some [l]) : f = l.toFormula := by
  cases f with
  | disj a b =>
      obtain ⟨l', m, ha, hb, hlm⟩ := literals?_disj.1 h
      have hl := List.length_pos_iff.2 (literals?_ne_nil ha)
      have hm := List.length_pos_iff.2 (literals?_ne_nil hb)
      have hlength := congrArg List.length hlm
      rw [List.length_append, List.length_singleton] at hlength
      omega
  | var x =>
      obtain rfl : ⟨x, true⟩ = l := by simpa [literals?, Literal.ofFormula?] using h
      rfl
  | neg a =>
      cases a with
      | var x =>
          obtain rfl : ⟨x, false⟩ = l := by simpa [literals?, Literal.ofFormula?] using h
          rfl
      | _ => simp [literals?, Literal.ofFormula?] at h
  | _ => simp [literals?, Literal.ofFormula?] at h

/-- The literals of a clause that is read as a formula. -/
lemma literals?_toFormula {c : Clause} (h : c.isEmpty = false) :
    literals? c.toFormula = some c.toList := by
  have hjoined : ∀ (ls : List Literal) (f : Formula) (ms : List Literal), literals? f = some ms →
      literals? ((ls.map Literal.toFormula).foldl Connective.disj.apply f) = some (ms ++ ls) := by
    intro ls
    induction ls with
    | nil =>
        intro f ms hf
        simpa using hf
    | cons l ls ih =>
        intro f ms hf
        have hstep : literals? (Connective.disj.apply f l.toFormula) = some (ms ++ [l]) := by
          exact literals?_disj.2 ⟨ms, [l], hf, literals?_literal l, rfl⟩
        simpa using ih _ _ hstep
  rw [Clause.toFormula]
  cases hls : c.toList with
  | nil =>
      have hempty : c.isEmpty = true := Clause.isEmpty_iff.2 fun l => by simp [hls]
      simp [hempty] at h
  | cons l ls => simpa [Formula.join?] using hjoined ls l.toFormula [l] (literals?_literal l)

/-- Alike formulas have the same literals, in some order. -/
lemma exists_perm_of_alike (h : f.alike g = true) (hg : literals? g = some ls) :
    ∃ ms, literals? f = some ms ∧ ms.Perm ls := by
  induction f generalizing g ls with
  | disj a b iha ihb =>
      cases g <;> simp only [Formula.alike, Bool.false_eq_true] at h
      obtain ⟨l, m, hp, hq, rfl⟩ := literals?_disj.1 hg
      rcases Formula.sidesAlike_iff.1 h with ⟨hap, hbq⟩ | ⟨haq, hbp⟩
      · obtain ⟨l', ha, hl⟩ := iha hap hp
        obtain ⟨m', hb, hm⟩ := ihb hbq hq
        exact ⟨_, literals?_disj.2 ⟨l', m', ha, hb, rfl⟩, hl.append hm⟩
      · obtain ⟨m', ha, hm⟩ := iha haq hq
        obtain ⟨l', hb, hl⟩ := ihb hbp hp
        exact ⟨_, literals?_disj.2 ⟨m', l', ha, hb, rfl⟩,
          (hm.append hl).trans List.perm_append_comm⟩
  | neg a ih =>
      cases g with
      | neg b =>
          -- a negation is a literal only if it negates a variable
          cases b <;> simp [literals?, Literal.ofFormula?] at hg
          cases a <;> simp [Formula.alike] at h
          subst h hg
          exact ⟨_, rfl, .refl _⟩
      | _ => simp [Formula.alike] at h
  | _ => cases g <;> simp_all [Formula.alike, literals?, Literal.ofFormula?]

end Rule

/-! ## Resolving what is known -/

/-- No name occurs with both signs. -/
def Consistent (P : Literal → Prop) : Prop :=
  ¬ ∃ x, P ⟨x, true⟩ ∧ P ⟨x, false⟩

lemma Clause.isTautology_eq_false_iff {c : Clause} :
    c.isTautology = false ↔ Consistent (· ∈ c.toList) := by
  rw [← Bool.not_eq_true, Clause.isTautology_iff, Consistent]

lemma Clause.isTautology_singleton (l : Literal) : (Clause.ofList [l]).isTautology = false := by
  rw [Clause.isTautology_eq_false_iff]
  rintro ⟨x, htrue, hfalse⟩
  simp only [Clause.mem_ofList, List.mem_singleton] at htrue hfalse
  simp [← htrue] at hfalse

/-- The formula is known, and is a disjunction of these literals, all of them different and not true
anyway. -/
structure KnownClause (kb : FormulaSet) (f : Formula) (ls : List Literal) : Prop where
  mem : f ∈ kb.toList
  literals : Rule.literals? f = some ls
  nodup : ls.Nodup
  reduced : (Clause.ofList ls).isTautology = false

section Known

variable {kb kb' : FormulaSet} {x : String} {b : Bool}

lemma KnownClause.mem_clausal (h : KnownClause kb f ls) :
    (f, Clause.ofList ls) ∈ Rule.clausal kb :=
  List.mem_filterMap.2 ⟨f, h.mem, by simp [h.literals]⟩

/-- Two clauses that are paired and clash on a name are resolved on it, unless what is left of them
is true anyway. -/
lemma exists_resolution_of_paired
    (hpair : ((f, Clause.ofList ls), (g, Clause.ofList ms)) ∈ pairs (Rule.clausal kb))
    (hreduced : (Clause.ofList ls).isTautology = false) (hx : ⟨x, b⟩ ∈ ls) (hx' : ⟨x, !b⟩ ∈ ms)
    (hrest : Consistent (Rest (.ofList ls) (.ofList ms) x b)) :
    ∃ r : Clause, (∀ l, l ∈ r.toList ↔ Rest (.ofList ls) (.ofList ms) x b l) ∧
      ∃ i ∈ Rule.resolution.apply kb none, i.conclusion = r.toFormula := by
  have hclash : x ∈ ((Clause.ofList ls).clashes (Clause.ofList ms)).toList :=
    Clause.mem_clashes.2 ⟨b, by simpa using hx, by simpa using hx'⟩
  obtain ⟨r, hr⟩ := Clause.exists_resolve? hclash
  have hliterals := rest_of_resolve? hreduced (by simpa using hx) hr
  have hrReduced : r.isTautology = false := by
    rw [Clause.isTautology_eq_false_iff]
    simpa only [hliterals] using hrest
  refine ⟨r, hliterals, ⟨.resolution, [f, g], r.toFormula, x⟩, ?_, rfl⟩
  refine List.mem_flatMap.2 ⟨_, hpair, List.mem_filterMap.2 ⟨x, hclash, ?_⟩⟩
  simp [hr, hrReduced, Rule.serves]

/-- The same in whichever order they are paired. -/
lemma exists_resolution (hf : KnownClause kb f ls) (hg : KnownClause kb g ms) (hx : ⟨x, b⟩ ∈ ls)
    (hx' : ⟨x, !b⟩ ∈ ms)
    (hrest : Consistent (Rest (.ofList ls) (.ofList ms) x b)) :
    ∃ r : Clause, (∀ l, l ∈ r.toList ↔ Rest (.ofList ls) (.ofList ms) x b l) ∧
      ∃ i ∈ Rule.resolution.apply kb none, i.conclusion = r.toFormula := by
  have hne : (f, Clause.ofList ls) ≠ (g, Clause.ofList ms) := by
    intro heq
    obtain rfl : f = g := congrArg Prod.fst heq
    obtain rfl : ls = ms := Option.some.inj (hf.literals.symm.trans hg.literals)
    exact Clause.not_mem_flip hf.reduced (by simpa using hx) (by simpa using hx')
  rcases mem_pairs_of_ne hf.mem_clausal hg.mem_clausal hne with hpair | hpair
  · exact exists_resolution_of_paired hpair hf.reduced hx hx' hrest
  · obtain ⟨r, hr, hi⟩ := exists_resolution_of_paired hpair hg.reduced hx' (by simpa using hx)
      (by simpa only [Consistent, rest_swap] using hrest)
    exact ⟨r, fun l => (hr l).trans rest_swap, hi⟩

/-- A clause is known, up to the order of its literals, once its formula is. -/
lemma exists_knownClause (hls : Rule.literals? f = some ls) (hnodup : ls.Nodup)
    (hreduced : (Clause.ofList ls).isTautology = false) (h : kb.contains f = true) :
    ∃ g ms, KnownClause kb g ms ∧ ∀ l, l ∈ ms ↔ l ∈ ls := by
  obtain ⟨g, hg, hgf⟩ := OrderedSet.contains_iff.1 h
  obtain ⟨ms, hms, hperm⟩ := Rule.exists_perm_of_alike hgf hls
  refine ⟨g, ms, ⟨hg, hms, hperm.nodup_iff.2 hnodup, ?_⟩, fun l => hperm.mem_iff⟩
  rw [Clause.isTautology_eq_false_iff] at hreduced ⊢
  simpa [hperm.mem_iff] using hreduced

/-- After a full round, the resolvent of two known clauses is known too, or stands as falsity. -/
lemma exists_known_resolvent (hf : KnownClause kb f ls) (hg : KnownClause kb g ms)
    (hx : ⟨x, b⟩ ∈ ls) (hx' : ⟨x, !b⟩ ∈ ms)
    (hrest : Consistent (Rest (.ofList ls) (.ofList ms) x b)) (hkb : Advances [] kb kb') :
    kb'.contains (Clause.ofList []).toFormula = true ∨
      ∃ h ks, KnownClause kb' h ks ∧ ∀ l ∈ ks, Rest (.ofList ls) (.ofList ms) x b l := by
  obtain ⟨r, hr, i, hi, hconclusion⟩ := exists_resolution hf hg hx hx' hrest
  have hknown : kb'.contains r.toFormula = true := by
    rw [← hconclusion]
    exact hkb.draws i (List.mem_flatMap.2 ⟨.resolution, by decide, hi⟩)
  by_cases hempty : r.isEmpty = true
  · have hnil : r.toList = [] := List.eq_nil_iff_forall_not_mem.2 (Clause.isEmpty_iff.1 hempty)
    rw [Clause.toFormula, hnil] at hknown
    exact Or.inl hknown
  · have hliterals := Rule.literals?_toFormula (by simpa using hempty : r.isEmpty = false)
    have hreduced : (Clause.ofList r.toList).isTautology = false := by
      rw [Clause.isTautology_eq_false_iff]
      simpa [hr] using hrest
    obtain ⟨h, ks, hks, hmem⟩ := exists_knownClause hliterals r.nodup_toList hreduced hknown
    exact Or.inr ⟨h, ks, hks, fun l hl => (hr l).1 ((hmem l).1 hl)⟩

/-! ## Clauses that are subsumed -/

/-- A known clause has only literals of the clause `c` and of the goal; or the clause says nothing
that goes against the goal, since it has the opposite of one of the goal's literals. -/
def Subsumed (goal : Clause) (kb : FormulaSet) (c : Clause) : Prop :=
  (∃ l ∈ c.toList, l.flip ∈ goal.toList) ∨
    ∃ f ls, KnownClause kb f ls ∧ ∀ l ∈ ls, l ∈ c.toList ∨ l ∈ goal.toList

variable {goal c d r : Clause}

lemma KnownClause.mono (h : KnownClause kb f ls) (hkb : Advances [] kb kb') :
    KnownClause kb' f ls :=
  ⟨hkb.keeps f h.mem, h.literals, h.nodup, h.reduced⟩

lemma Subsumed.mono (h : Subsumed goal kb c) (hkb : Advances [] kb kb') : Subsumed goal kb' c :=
  h.imp_right fun ⟨f, ls, hf, hls⟩ => ⟨f, ls, hf.mono hkb, hls⟩

/-- Where the clause without literals is subsumed, a known clause has only literals of the goal. -/
lemma Subsumed.of_isEmpty (h : Subsumed goal kb c) (hempty : c.isEmpty = true) :
    ∃ f ls, KnownClause kb f ls ∧ ∀ l ∈ ls, l ∈ goal.toList := by
  have hnone := Clause.isEmpty_iff.1 hempty
  rcases h with ⟨l, hl, -⟩ | ⟨f, ls, hf, hls⟩
  · exact absurd hl (hnone l)
  · exact ⟨f, ls, hf, fun l hl => (hls l hl).resolve_left (hnone l)⟩

/-- Resolving with a clause that has the opposite of one of the goal's literals brings nothing new:
if the opposite is not left, it was resolved on, and the other clause was enough. -/
lemma subsumed_of_opposite (hgoal : goal.isTautology = false)
    (hr : ∀ l, l ∈ r.toList ↔ Rest c d x b l) (hc : ∃ l ∈ c.toList, l.flip ∈ goal.toList)
    (hd : Subsumed goal kb d) : Subsumed goal kb r := by
  obtain ⟨l, hl, hflip⟩ := hc
  by_cases hlx : l = ⟨x, b⟩
  · subst hlx
    rcases hd with ⟨k, hk, hkflip⟩ | ⟨f, ls, hf, hls⟩
    · by_cases hkx : k = ⟨x, !b⟩
      · subst hkx
        exact absurd hkflip (Clause.not_mem_flip hgoal hflip)
      · exact Or.inl ⟨k, (hr k).2 (Or.inr ⟨hk, hkx⟩), hkflip⟩
    · refine Or.inr ⟨f, ls, hf, fun k hk => ?_⟩
      by_cases hkx : k = ⟨x, !b⟩
      · exact Or.inr (hkx ▸ hflip)
      · exact (hls k hk).imp_left fun hkd => (hr k).2 (Or.inr ⟨hkd, hkx⟩)
  · exact Or.inl ⟨l, (hr l).2 (Or.inl ⟨hl, hlx⟩), hflip⟩

/-- A resolvent of two subsumed clauses is subsumed after a full round, by one of the clauses that
subsumed them or by their resolvent; unless that is the clause without literals. -/
lemma subsumed_resolvent (hgoal : goal.isTautology = false) (hreduced : r.isTautology = false)
    (hr : ∀ l, l ∈ r.toList ↔ Rest c d x b l) (hc : Subsumed goal kb c) (hd : Subsumed goal kb d)
    (hkb : Advances [] kb kb') :
    kb'.contains (Clause.ofList []).toFormula = true ∨ Subsumed goal kb' r := by
  rcases hc with hc | ⟨f, ls, hf, hls⟩
  · exact Or.inr ((subsumed_of_opposite hgoal hr hc hd).mono hkb)
  rcases hd with hd | ⟨g, ms, hg, hms⟩
  · have hswap : ∀ l, l ∈ r.toList ↔ Rest d c x (!b) l := fun l => (hr l).trans rest_swap.symm
    exact Or.inr ((subsumed_of_opposite hgoal hswap hd (Or.inr ⟨f, ls, hf, hls⟩)).mono hkb)
  -- a literal that is not resolved on is in the resolvent, or in the goal
  have hlsr : ∀ l ∈ ls, l ≠ ⟨x, b⟩ → l ∈ r.toList ∨ l ∈ goal.toList :=
    fun l hl hne => (hls l hl).imp_left fun hlc => (hr l).2 (Or.inl ⟨hlc, hne⟩)
  have hmsr : ∀ l ∈ ms, l ≠ ⟨x, !b⟩ → l ∈ r.toList ∨ l ∈ goal.toList :=
    fun l hl hne => (hms l hl).imp_left fun hld => (hr l).2 (Or.inr ⟨hld, hne⟩)
  by_cases hx : ⟨x, b⟩ ∈ ls
  swap
  · exact Or.inr (Or.inr ⟨f, ls, hf.mono hkb, fun l hl => hlsr l hl fun h => hx (h ▸ hl)⟩)
  by_cases hx' : ⟨x, !b⟩ ∈ ms
  swap
  · exact Or.inr (Or.inr ⟨g, ms, hg.mono hkb, fun l hl => hmsr l hl fun h => hx' (h ▸ hl)⟩)
  by_cases hopposite : ∃ l ∈ r.toList, l.flip ∈ goal.toList
  · exact Or.inr (Or.inl hopposite)
  have hleft : ∀ l, Rest (.ofList ls) (.ofList ms) x b l → l ∈ r.toList ∨ l ∈ goal.toList := by
    rintro l (⟨hl, hne⟩ | ⟨hl, hne⟩)
    · exact hlsr l (by simpa using hl) hne
    · exact hmsr l (by simpa using hl) hne
  have hrest : Consistent (Rest (.ofList ls) (.ofList ms) x b) := by
    rintro ⟨y, htrue, hfalse⟩
    rcases hleft _ htrue with htrue | htrue <;> rcases hleft _ hfalse with hfalse | hfalse
    · exact Clause.not_mem_flip hreduced htrue hfalse
    · exact hopposite ⟨_, htrue, hfalse⟩
    · exact hopposite ⟨_, hfalse, htrue⟩
    · exact Clause.not_mem_flip hgoal htrue hfalse
  refine (exists_known_resolvent hf hg hx hx' hrest hkb).imp_right ?_
  rintro ⟨h, ks, hks, hmem⟩
  exact Or.inr ⟨h, ks, hks, fun l hl => hleft l (hmem l hl)⟩

end Known

/-! ## Refutations inside searches -/

/-- Full rounds keep up with the rounds of a refutation: what it has found is subsumed. -/
lemma inevitable_of_refuteFrom {plan : Schedule} {axioms : List Formula} {goal : Formula}
    {c : Clause} {names : List String} {rounds : ℕ} {clauses : ClauseSet} {steps : List Resolvent}
    {kb : FormulaSet} (hc : c.isTautology = false)
    (hfalsity : ∀ kb : FormulaSet, (∀ f ∈ kb.toList, Entails axioms f) →
      kb.contains (Clause.ofList []).toFormula = true → kb.contains goal = true)
    (hfound : ∀ (kb : FormulaSet) (f : Formula) (ls : List Literal), KnownClause kb f ls →
      (∀ l ∈ ls, l ∈ c.toList) → kb.contains goal = true)
    (hproper : Proper names clauses) (hkb : ∀ f ∈ kb.toList, Entails axioms f)
    (hclauses : ∀ d ∈ clauses.toList, Subsumed c kb d)
    (h : (refuteFrom plan rounds clauses steps).1 = true) : Inevitable [] goal rounds kb := by
  induction rounds generalizing clauses steps kb with
  | zero => simp [refuteFrom] at h
  | succ rounds ih =>
      intro kb' hadvances
      have hkb' : ∀ f ∈ kb'.toList, Entails axioms f :=
        fun f hf => Entails.trans hkb (hadvances.follows f hf)
      by_cases hknown : kb'.contains (Clause.ofList []).toFormula = true
      · exact .of_contains (hfalsity kb' hkb' hknown) rounds
      have hround : ∀ r ∈ plan.round clauses, r.result.isTautology = false →
          Subsumed c kb' r.result := by
        intro r hr hreduced
        obtain ⟨d, hd, e, he, x, hresolve⟩ := resolve?_of_mem_round hr
        obtain ⟨b, -, -, hliterals⟩ := Clause.mem_resolve? hresolve
        exact (subsumed_resolvent hc hreduced hliterals (hclauses d hd) (hclauses e he)
          hadvances).resolve_left hknown
      rw [refuteFrom_succ] at h
      split_ifs at h with hrefuted hstable
      · obtain ⟨r, hr, hempty⟩ := List.any_eq_true.1 hrefuted
        have hreduced : r.result.isTautology = false := by
          rw [Clause.isTautology_eq_false_iff]
          rintro ⟨x, hx, -⟩
          exact Clause.isEmpty_iff.1 hempty _ hx
        obtain ⟨f, ls, hf, hls⟩ := (hround r hr hreduced).of_isEmpty hempty
        exact .of_contains (hfound kb' f ls hf hls) rounds
      · have hquiet : ∀ r ∈ plan.round clauses, r.result.isEmpty = false := by
          simpa using hrefuted
        refine ih (hproper.insertAll_fresh hquiet) hkb' (fun d hd => ?_) h
        rcases OrderedSet.mem_or_mem_of_mem_insertAll hd with hd | hd
        · exact (hclauses d hd).mono hadvances
        · obtain ⟨⟨r, hr, rfl⟩, -, hreduced⟩ := mem_fresh.1 hd
          exact hround r hr hreduced

/-! ## What a refutation of a clause starts from -/

/-- The formula is a disjunction of different literals, all of them with a name. -/
def Formula.IsClause (f : Formula) : Prop :=
  ∃ ls, Rule.literals? f = some ls ∧ ls.Nodup ∧ ∀ l ∈ ls, l.name ≠ ""

/-- The clauses of the axioms that are not true anyway, and the opposites of the literals of `c`. -/
def denial (axioms : List Formula) (c : Clause) : ClauseSet :=
  .ofList ((axioms.filterMap fun f => (Rule.literals? f).map Clause.ofList).filter
    (!·.isTautology) ++ c.toList.map fun l => .ofList [l.flip])

section Denial

variable {axioms : List Formula} {c d : Clause}

lemma mem_denial (h : d ∈ (denial axioms c).toList) :
    (∃ f ∈ axioms, ∃ ls, Rule.literals? f = some ls ∧ d = .ofList ls ∧ d.isTautology = false) ∨
      ∃ l ∈ c.toList, d = .ofList [l.flip] := by
  have hmem := OrderedSet.mem_of_mem_ofList h
  simp only [List.mem_append, List.mem_filter, List.mem_filterMap, Option.map_eq_some_iff,
    List.mem_map, Bool.not_eq_true'] at hmem
  rcases hmem with ⟨⟨f, hf, ls, hls, rfl⟩, hreduced⟩ | ⟨l, hl, rfl⟩
  · exact Or.inl ⟨f, hf, ls, hls, rfl, hreduced⟩
  · exact Or.inr ⟨l, hl, rfl⟩

/-- A clause that follows from the axioms is refuted together with them. -/
lemma no_model_denial (haxioms : ∀ f ∈ axioms, f.IsClause) (hc : Entails axioms c.toFormula) :
    ¬ ∃ v : Valuation, ∀ d ∈ (denial axioms c).toList, d.eval v = true := by
  rintro ⟨v, hv⟩
  rw [denial, OrderedSet.forall_ofList (Clause.respects_eval v)] at hv
  have hsatisfied : ∀ f ∈ axioms, f.eval v = true := by
    intro f hf
    obtain ⟨ls, hls, -⟩ := haxioms f hf
    rw [Rule.eval_of_literals? hls, ← Clause.eval_ofList]
    by_cases htaut : (Clause.ofList ls).isTautology = true
    · exact Clause.eval_of_isTautology htaut
    · refine hv _ (List.mem_append_left _ (List.mem_filter.2 ⟨?_, by simpa using htaut⟩))
      exact List.mem_filterMap.2 ⟨f, hf, by simp [hls]⟩
  have htrue := hc v hsatisfied
  rw [Clause.eval_toFormula] at htrue
  obtain ⟨l, hl, hlv⟩ := Clause.eval_iff.1 htrue
  have hflip := hv (.ofList [l.flip]) (List.mem_append_right _ (List.mem_map_of_mem hl))
  rw [Clause.eval_ofList] at hflip
  simp [Literal.flip, Literal.eval_flip, hlv] at hflip

lemma proper_denial (haxioms : ∀ f ∈ axioms, f.IsClause) (hc : ∀ l ∈ c.toList, l.name ≠ "") :
    Proper ((denial axioms c).toList.flatMap fun d => d.toList.map (·.name)) (denial axioms c) where
  nonempty := by
    intro d hd
    rw [← Bool.not_eq_true, Clause.isEmpty_iff]
    rcases mem_denial hd with ⟨f, -, ls, hls, rfl, -⟩ | ⟨l, -, rfl⟩
    · obtain ⟨l, hl⟩ := List.exists_mem_of_ne_nil ls (Rule.literals?_ne_nil hls)
      exact fun hnone => hnone l (by simpa using hl)
    · exact fun hnone => hnone l.flip (by simp)
  reduced := by
    intro d hd
    rcases mem_denial hd with ⟨f, -, ls, -, -, hreduced⟩ | ⟨l, -, rfl⟩
    · exact hreduced
    · exact Clause.isTautology_singleton _
  named := by
    intro d hd l hl
    refine ⟨?_, List.mem_flatMap.2 ⟨d, hd, List.mem_map_of_mem hl⟩⟩
    rcases mem_denial hd with ⟨f, hf, ls, hls, rfl, -⟩ | ⟨k, hk, rfl⟩
    · obtain ⟨ms, hms, -, hnames⟩ := haxioms f hf
      obtain rfl : ls = ms := Option.some.inj (hls.symm.trans hms)
      exact hnames l (by simpa using hl)
    · obtain rfl : l = k.flip := by simpa using hl
      exact hc k hk

lemma subsumed_denial {goal : Formula} (haxioms : ∀ f ∈ axioms, f.IsClause)
    (hd : d ∈ (denial axioms c).toList) :
    Subsumed c (ProofState.start axioms goal).knowledge d := by
  rcases mem_denial hd with ⟨f, hf, ls, hls, rfl, hreduced⟩ | ⟨l, hl, rfl⟩
  · obtain ⟨ms, hms, hnodup, -⟩ := haxioms f hf
    obtain rfl : ls = ms := Option.some.inj (hls.symm.trans hms)
    obtain ⟨g, ks, hks, hmem⟩ := exists_knownClause hls hnodup hreduced (contains_start hf)
    exact Or.inr ⟨g, ks, hks, fun l hl => Or.inl (by simpa using (hmem l).1 hl)⟩
  · exact Or.inl ⟨l.flip, by simp, by simpa [Literal.flip] using hl⟩

end Denial

/-! ## What is found -/

/-- Some search with all rules proves the goal. -/
def Provable (axioms : List Formula) (goal : Formula) : Prop :=
  ∃ c : SearchConfig, c.excluded = [] ∧ (prove axioms goal c).success = true

section Found

variable {axioms : List Formula}

lemma provable_of_clause {c : Clause} (haxioms : ∀ f ∈ axioms, f.IsClause)
    (hnames : ∀ l ∈ c.toList, l.name ≠ "") (hreduced : c.isTautology = false)
    (hentails : Entails axioms c.toFormula)
    (hfalsity : ∀ kb : FormulaSet, (∀ f ∈ kb.toList, Entails axioms f) →
      kb.contains (Clause.ofList []).toFormula = true → kb.contains c.toFormula = true)
    (hfound : ∀ (kb : FormulaSet) (f : Formula) (ls : List Literal), KnownClause kb f ls →
      (∀ l ∈ ls, l ∈ c.toList) → kb.contains c.toFormula = true) :
    Provable axioms c.toFormula := by
  have hrefuted : (refuteFrom .arrival _ (denial axioms c) []).1 = true :=
    refuteFrom_of_no_model (proper_denial haxioms hnames) (Nat.le_add_right _ _)
      (no_model_denial haxioms hentails)
  have hinevitable := inevitable_of_refuteFrom hreduced hfalsity hfound
    (proper_denial haxioms hnames) (grounded_start axioms c.toFormula)
    (fun d => subsumed_denial haxioms) hrefuted
  obtain ⟨steps, width, hproved⟩ := prove_of_inevitable (c := {}) hentails hinevitable
  exact ⟨_, rfl, hproved⟩

/-- Axioms that contradict each other are refuted. -/
lemma provable_falsity (haxioms : ∀ f ∈ axioms, f.IsClause)
    (hmodel : ¬ ∃ v : Valuation, ∀ f ∈ axioms, f.eval v = true) :
    Provable axioms (Clause.ofList []).toFormula := by
  refine provable_of_clause haxioms (by simp) rfl (fun v hv => absurd ⟨v, hv⟩ hmodel)
    (fun kb _ h => h) fun kb f ls hf hls => ?_
  obtain ⟨l, hl⟩ := List.exists_mem_of_ne_nil ls (Rule.literals?_ne_nil hf.literals)
  simpa using hls l hl

/-- A literal that follows has a name, since the axioms do not mention the empty one. -/
lemma name_ne_of_entails {l : Literal} (haxioms : ∀ f ∈ axioms, f.IsClause)
    (hmodel : ∃ v : Valuation, ∀ f ∈ axioms, f.eval v = true)
    (hentails : Entails axioms l.toFormula) : l.name ≠ "" := by
  intro hname
  obtain ⟨v, hv⟩ := hmodel
  have hupdated : ∀ f ∈ axioms, f.eval (Function.update v "" (!l.positive)) = true := by
    intro f hf
    obtain ⟨ls, hls, -, hnames⟩ := haxioms f hf
    have htrue := hv f hf
    simp only [Rule.eval_of_literals? hls, List.any_eq_true] at htrue ⊢
    obtain ⟨k, hk, hkv⟩ := htrue
    exact ⟨k, hk, by rwa [Literal.eval_update, if_neg (hnames k hk)]⟩
  have htrue := hentails _ hupdated
  rw [Literal.eval_toFormula, Literal.eval_update, if_pos hname] at htrue
  simp at htrue

/-- Literals are found that follow from axioms which do not contradict each other. -/
lemma provable_literal {l : Literal} (haxioms : ∀ f ∈ axioms, f.IsClause)
    (hmodel : ∃ v : Valuation, ∀ f ∈ axioms, f.eval v = true)
    (hentails : Entails axioms l.toFormula) : Provable axioms l.toFormula := by
  have hname := name_ne_of_entails haxioms hmodel hentails
  refine provable_of_clause (c := .ofList [l]) haxioms (by simpa using hname)
    (Clause.isTautology_singleton l) hentails
    (fun kb hkb hknown => ?_) fun kb f ls hf hls => ?_
  · -- what contradicts itself does not follow
    obtain ⟨v, hv⟩ := hmodel
    have hfalse := Satisfies.eval_of_contains (fun f hf => hkb f hf v hv) hknown
    simp [Clause.eval] at hfalse
  · have hall : ∀ k ∈ ls, k = l := by simpa using hls
    have hsingle : ls = [l] := by
      rcases ls with _ | ⟨k, _ | ⟨k', ks⟩⟩
      · exact absurd rfl (Rule.literals?_ne_nil hf.literals)
      · rw [hall k (by simp)]
      · have hnodup := hf.nodup
        rw [hall k (by simp), hall k' (by simp)] at hnodup
        simp at hnodup
    have hfl : f = l.toFormula := Rule.eq_literal_of_literals? (hsingle ▸ hf.literals)
    exact FormulaSet.contains_of_mem (hfl ▸ hf.mem : l.toFormula ∈ kb.toList)

end Found

/-! ## How complete searches are -/

/-- **Searches are complete for refuting clauses, and no further.**  From disjunctions of different
literals, some search with all rules refutes axioms that contradict each other, and proves every
literal that follows from axioms that do not.  But without axioms none proves anything, and an
implication or equivalence is proved only if it is written in the axioms already, or is an
implication whose right side is an axiom: there is no reasoning under an assumption. -/
theorem search_complete_for_clauses (axioms : List Formula) :
    ((∀ f ∈ axioms, f.IsClause) →
      ((¬ ∃ v : Valuation, ∀ f ∈ axioms, f.eval v = true) →
        Provable axioms (Clause.ofList []).toFormula) ∧
      ((∃ v : Valuation, ∀ f ∈ axioms, f.eval v = true) → ∀ l : Literal,
        Entails axioms l.toFormula → Provable axioms l.toFormula)) ∧
    (axioms = [] → ∀ (goal : Formula) (c : SearchConfig), (prove axioms goal c).success = false) ∧
    ∀ (goal : Formula) (c : SearchConfig), goal.isArrow = true →
      (prove axioms goal c).success = true →
        goal.Occurs axioms ∨ ∃ p q, goal = .impl p q ∧ ∃ f ∈ axioms, f.alike q = true := by
  refine ⟨fun haxioms => ⟨provable_falsity haxioms, fun hmodel l => ?_⟩, ?_,
    fun goal c => occurs_of_prove⟩
  · exact provable_literal haxioms hmodel
  · rintro rfl goal c
    exact prove_nil goal c

/-- What is always true follows from no axioms, and no search proves it. -/
theorem entailed_not_provable :
    ¬ ∀ (axioms : List Formula) (goal : Formula), Entails axioms goal → Provable axioms goal := by
  intro hcomplete
  have hvalid : Entails [] (.impl (.var "P") (.var "P")) := by
    intro v _
    simp [Formula.eval]
  obtain ⟨c, -, hproved⟩ := hcomplete [] _ hvalid
  rw [prove_nil] at hproved
  cases hproved

end AnnealProver
