import AnnealProver.Proofs.Conversions

/-!
# What clause sets never get

Two kinds of clauses are degenerate: one without literals is false, and one that has a name with
both signs is true anyway.  The conversion to clausal form makes neither, and the argument goes
operation by operation, from the laws for the clauses of a result.

Clauses that are **true anyway** are turned away at different places.  An addition looks at the new
clause only, a union at the clauses of the second set, and a disjunction at the clauses it pairs,
while it hands over one set unseen when the other is empty.  So a set stays free of such clauses if
the first operand was (`reduced_add_iff`, `reduced_union_iff`), and a disjunction if those sets were
that it can hand over (`reduced_distribute_iff`).

An **empty** clause is never made out of others: it is handed over (`hasEmptyClause_foldl_add`), or,
in a disjunction, two of them are paired (`hasEmptyClause_distribute`).
-/

namespace AnnealProver

namespace Clause

variable {c d : Clause} {xs ys : List String}

lemma isEmpty_eq_false_iff : c.isEmpty = false ↔ ∃ l, l ∈ c.toList := by
  rw [← Bool.not_eq_true, isEmpty_iff, not_forall_not]

/-- Clauses with the same literals are empty together. -/
lemma respects_isEmpty : OrderedSet.Respects same fun c => c.isEmpty = false := by
  intro c d h
  simp only [isEmpty_eq_false_iff, same_iff.1 h]

/-- A clause that is true anyway has two literals. -/
lemma isEmpty_of_isTautology (h : c.isTautology = true) : c.isEmpty = false := by
  obtain ⟨x, hpositive, -⟩ := isTautology_iff.1 h
  exact isEmpty_eq_false_iff.2 ⟨_, hpositive⟩

lemma isEmpty_unless_isTautology :
    (c.isTautology = false → c.isEmpty = false) ↔ c.isEmpty = false :=
  unless_isTautology_iff isEmpty_of_isTautology

lemma isEmpty_union : (c.union d).isEmpty = (c.isEmpty && d.isEmpty) := by
  rw [Bool.eq_iff_iff, Bool.and_eq_true, isEmpty_iff, isEmpty_iff, isEmpty_iff]
  simp only [mem_union, not_or, forall_and]

/-- There are literals, and all names are from the list. -/
def Over (xs : List String) (c : Clause) : Prop :=
  c.isEmpty = false ∧ ∀ l ∈ c.toList, l.name ∈ xs

lemma respects_over (xs : List String) : OrderedSet.Respects same (Over xs) := by
  intro c d h
  simp only [Over, isEmpty_eq_false_iff, same_iff.1 h]

lemma Over.mono (h : c.Over xs) (hsub : xs ⊆ ys) : c.Over ys :=
  ⟨h.1, fun l hl => hsub (h.2 l hl)⟩

lemma Over.union (hc : c.Over xs) (hd : d.Over ys) : (c.union d).Over (xs ++ ys) := by
  refine ⟨by rw [isEmpty_union, hc.1, Bool.false_and], fun l hl => ?_⟩
  rcases mem_union.1 hl with hl | hl
  · exact List.mem_append_left _ (hc.2 l hl)
  · exact List.mem_append_right _ (hd.2 l hl)

end Clause

namespace Cnf

variable {f g : Cnf}

/-! ## Clauses that are true anyway -/

lemma reduced_add_iff (c : Clause) : (f.add c).Reduced ↔ f.Reduced := by
  rw [Reduced, forall_add Clause.respects_isTautology]
  exact and_iff_left fun h => h

/-! ## The empty clause -/

lemma hasEmptyClause_eq_false_iff :
    f.hasEmptyClause = false ↔ ∀ c ∈ f.toList, c.isEmpty = false := by
  simp [hasEmptyClause]

/-- Adding clauses brings in an empty one exactly if there is one among them. -/
lemma hasEmptyClause_foldl_add (cs : List Clause) :
    (cs.foldl add f).hasEmptyClause = (f.hasEmptyClause || cs.any Clause.isEmpty) := by
  rw [← Bool.not_inj_iff, Bool.eq_iff_iff]
  simp only [Bool.not_eq_true', Bool.or_eq_false_iff, List.any_eq_false, Bool.not_eq_true,
    hasEmptyClause_eq_false_iff, forall_foldl_add Clause.respects_isEmpty,
    Clause.isEmpty_unless_isTautology]

lemma hasEmptyClause_add (c : Clause) :
    (f.add c).hasEmptyClause = (f.hasEmptyClause || c.isEmpty) := by
  simpa using hasEmptyClause_foldl_add (f := f) [c]

lemma hasEmptyClause_ofList (cs : List Clause) :
    (ofList cs).hasEmptyClause = cs.any Clause.isEmpty :=
  hasEmptyClause_foldl_add cs

lemma hasEmptyClause_union :
    (f.union g).hasEmptyClause = (f.hasEmptyClause || g.hasEmptyClause) :=
  hasEmptyClause_foldl_add g.toList

/-- An empty clause of a disjunction is handed over from one set, or there is one in both. -/
lemma hasEmptyClause_distribute :
    (f.distribute g).hasEmptyClause =
      if f.isEmpty then g.hasEmptyClause
      else if g.isEmpty then f.hasEmptyClause
      else f.hasEmptyClause && g.hasEmptyClause := by
  rw [← Bool.not_inj_iff, Bool.eq_iff_iff, Bool.not_eq_true', Bool.not_eq_true',
    hasEmptyClause_eq_false_iff, forall_distribute Clause.respects_isEmpty]
  split_ifs
  · exact hasEmptyClause_eq_false_iff.symm
  · exact hasEmptyClause_eq_false_iff.symm
  · -- the condition is on the joined clause, so it goes before the clause is taken apart
    simp only [Clause.isEmpty_unless_isTautology]
    simp only [Clause.isEmpty_union, Bool.and_eq_false_iff, hasEmptyClause_eq_false_iff,
      forall_pairs_or_iff]

/-! ## The conversion -/

lemma over_ofLiteral {l : Literal} {xs : List String} (h : l.name ∈ xs) :
    ∀ c ∈ (ofLiteral l).toList, c.Over xs := by
  intro c hc
  rw [toList_ofLiteral, List.mem_singleton] at hc
  subst hc
  exact ⟨rfl, by simpa using h⟩

/-- The clauses of a formula are not empty and have no other names than the formula. -/
lemma over_ofNnf (f : Formula) : ∀ c ∈ (ofNnf f).toList, c.Over f.names := by
  fun_induction ofNnf f with
  | case1 x => exact over_ofLiteral List.mem_cons_self
  | case2 x => exact over_ofLiteral List.mem_cons_self
  | case3 a b iha ihb =>
      refine (forall_union (Clause.respects_over _)).2 ⟨fun c hc => ?_, fun c hc _ => ?_⟩
      · exact (iha c hc).mono (List.subset_append_left _ _)
      · exact (ihb c hc).mono (List.subset_append_right _ _)
  | case4 a b iha ihb =>
      rw [forall_distribute (Clause.respects_over _)]
      split_ifs
      · exact fun c hc => (ihb c hc).mono (List.subset_append_right _ _)
      · exact fun c hc => (iha c hc).mono (List.subset_append_left _ _)
      · exact fun c hc d hd _ => (iha c hc).union (ihb d hd)
  | case5 => exact fun c hc => by simp [toList] at hc

/-- What is in negation normal form is converted without complaint. -/
lemma ofNnfStrict_of_isNnf {f : Formula} (h : f.IsNnf) : ofNnfStrict f = .ok (ofNnf f) := by
  induction h with
  | var x => rfl
  | neg x => rfl
  | conj ha hb iha ihb | disj ha hb iha ihb =>
      rw [ofNnfStrict, iha, ihb]
      rfl

end Cnf

namespace Formula

lemma toCnfStrict_eq_ok (f : Formula) : f.toCnfStrict = .ok f.toCnf := by
  have hnnf : f.toNnfStrict = .ok f.toNnf := pushStrict_expand true f
  rw [toCnfStrict, hnnf]
  exact Cnf.ofNnfStrict_of_isNnf (isNnf_toNnf f)

lemma hasEmptyClause_toCnf (f : Formula) : f.toCnf.hasEmptyClause = false :=
  Cnf.hasEmptyClause_eq_false_iff.2 fun c hc => (Cnf.over_ofNnf f.toNnf c hc).1

/-- No name comes in with the clauses. -/
lemma mem_vars_of_toCnf {f : Formula} {x : String} (h : x ∈ f.toCnf.vars.toList) :
    x ∈ f.vars.toList := by
  obtain ⟨c, hc, l, hl, rfl⟩ := Cnf.mem_vars_iff.1 h
  have hname : l.name ∈ f.toNnf.names := (Cnf.over_ofNnf f.toNnf c hc).2 l hl
  exact mem_nameSet_ofList.2 ((mem_names_iff_of_vars_eq (vars_toNnf f)).1 hname)

end Formula

/-- **Clause sets get no degenerate clauses.**  Every formula is converted without complaint.  Its
clauses entail it; none is empty, none is true anyway, and their names are names of the formula.

For any operands, a set made from a list has no clause that is true anyway, an addition and a union
have one exactly if the first operand had, and a disjunction exactly if it hands over a set that
had.  There is an empty clause exactly if one was among those given; only a disjunction of two sets
that both have clauses takes one from each. -/
theorem Cnf.no_degenerate_clauses :
    (∀ e : Formula, e.toCnfStrict = .ok e.toCnf ∧
      (∀ v : Valuation, e.toCnf.eval v = true → e.eval v = true) ∧
      e.toCnf.hasEmptyClause = false ∧ e.toCnf.Reduced ∧
      ∀ x ∈ e.toCnf.vars.toList, x ∈ e.vars.toList) ∧
    (∀ cs : List Clause, (ofList cs).Reduced ∧
      (ofList cs).hasEmptyClause = cs.any Clause.isEmpty) ∧
    (∀ (f : Cnf) (c : Clause), ((f.add c).Reduced ↔ f.Reduced) ∧
      (f.add c).hasEmptyClause = (f.hasEmptyClause || c.isEmpty)) ∧
    (∀ f g : Cnf, ((f.union g).Reduced ↔ f.Reduced) ∧
      (f.union g).hasEmptyClause = (f.hasEmptyClause || g.hasEmptyClause)) ∧
    ∀ f g : Cnf,
      ((f.distribute g).Reduced ↔
        (f.isEmpty = true → g.Reduced) ∧ (g.isEmpty = true → f.Reduced)) ∧
      (f.distribute g).hasEmptyClause =
        if f.isEmpty then g.hasEmptyClause
        else if g.isEmpty then f.hasEmptyClause
        else f.hasEmptyClause && g.hasEmptyClause := by
  refine ⟨fun e => ?_, fun cs => ⟨reduced_ofList cs, hasEmptyClause_ofList cs⟩,
    fun f c => ⟨reduced_add_iff c, hasEmptyClause_add c⟩,
    fun f g => ⟨reduced_union_iff, hasEmptyClause_union⟩,
    fun f g => ⟨reduced_distribute_iff, hasEmptyClause_distribute⟩⟩
  exact ⟨e.toCnfStrict_eq_ok, fun v => e.eval_of_toCnf, e.hasEmptyClause_toCnf,
    reduced_ofNnf e.toNnf, fun x => Formula.mem_vars_of_toCnf⟩

-- A set that is handed over is not looked at.
example :
    let anyway : Cnf := ⟨.ofList [.ofList [⟨"P", true⟩, ⟨"P", false⟩]]⟩
    ((⟨∅⟩ : Cnf).distribute anyway).toList.map Clause.isTautology = [true] ∧
      ((⟨∅⟩ : Cnf).union anyway).toList = [] := by
  decide

end AnnealProver
