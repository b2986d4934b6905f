import AnnealProver.Proofs.NormalForm

/-!
# How far the conversions reach

**Negation normal form.**  The pass that pushes negations has no rule for implications and
equivalences, so it has to be shown that it meets none: writing out leaves none behind, whichever
sign a part is taken with (`pushStrict_expand`).  Writing out an equivalence doubles both of its
sides, but the names that come a second time are known by then, so the set of names is the same in
the same order (`vars_toNnf`).  What is in normal form is left as it is (`toNnf_of_isNnf`), and so
is the result of a first conversion by a second one.

**Clausal form.**  The clauses say what is left of the normal form when it is pruned (`eval_toCnf`).
Pruning takes away operands of disjunctions that are always true, and nothing else; where there is
no such operand the clauses say just what the formula says (`pruned_eq_self`).
-/

namespace AnnealProver

/-! ## Names that come again -/

namespace OrderedSet

variable {α : Type} {same : α → α → Bool} {s : OrderedSet same}

lemma insertAll_append (as bs : List α) :
    s.insertAll (as ++ bs) = (s.insertAll as).insertAll bs :=
  List.foldl_append

/-- Adding what is there already changes nothing. -/
lemma insertAll_eq_self {as : List α} (h : ∀ a ∈ as, s.contains a = true) :
    s.insertAll as = s := by
  induction as with
  | nil => rfl
  | cons a as ih =>
      rw [List.forall_mem_cons] at h
      have hhead : s.insert a = s := by rw [insert, dif_pos h.1]
      have hstep : s.insertAll (a :: as) = (s.insert a).insertAll as := rfl
      rw [hstep, hhead]
      exact ih h.2

end OrderedSet

lemma NameSet.contains_insertAll {s : NameSet} {xs : List String} {x : String} :
    (s.insertAll xs).contains x = true ↔ s.contains x = true ∨ x ∈ xs := by
  rw [contains_nameSet, contains_nameSet]
  exact OrderedSet.mem_insertAll_iff fun _ _ => eq_of_beq

namespace Formula

variable {v : Valuation} {f : Formula}

/-! ## Negation normal form -/

/-- Once implications and equivalences are written out, the strict pass meets none. -/
lemma pushStrict_expand (positive : Bool) (f : Formula) :
    pushStrict positive f.expand = .ok (push positive f.expand) := by
  induction f generalizing positive with
  | var x => cases positive <;> rfl
  | neg a ih => cases positive <;> simp only [expand, pushStrict, push, ih]
  | conj a b iha ihb | disj a b iha ihb | impl a b iha ihb | iff a b iha ihb =>
      cases positive <;> simp only [expand, pushStrict, push, iha, ihb] <;> rfl

lemma names_push_conj (positive : Bool) (a b : Formula) :
    (push positive (conj a b)).names = (push positive a).names ++ (push positive b).names := by
  cases positive <;> rfl

lemma names_push_disj (positive : Bool) (a b : Formula) :
    (push positive (disj a b)).names = (push positive a).names ++ (push positive b).names := by
  cases positive <;> rfl

lemma names_push_neg (positive : Bool) (a : Formula) :
    (push positive (neg a)).names = (push (!positive) a).names := by
  cases positive <;> rfl

/-- Whatever names are known before, the normal form adds those that the formula adds. -/
lemma insertAll_names_push (positive : Bool) (f : Formula) (s : NameSet) :
    s.insertAll (push positive f.expand).names = s.insertAll f.names := by
  induction f generalizing positive s with
  | var x => cases positive <;> rfl
  | neg a ih => rw [expand, names_push_neg, ih, names]
  | conj a b iha ihb =>
      rw [expand, names_push_conj, names, OrderedSet.insertAll_append, OrderedSet.insertAll_append,
        iha, ihb]
  | disj a b iha ihb =>
      rw [expand, names_push_disj, names, OrderedSet.insertAll_append, OrderedSet.insertAll_append,
        iha, ihb]
  | impl a b iha ihb =>
      rw [expand, names_push_disj, names_push_neg, names, OrderedSet.insertAll_append,
        OrderedSet.insertAll_append, iha, ihb]
  | iff a b iha ihb =>
      simp only [expand, names_push_conj, names_push_disj, names_push_neg, names,
        OrderedSet.insertAll_append, iha, ihb]
      -- both sides come a second time, the right one first
      set known := (s.insertAll a.names).insertAll b.names with hknown
      have hright : ∀ x ∈ b.names, known.contains x = true :=
        fun x hx => NameSet.contains_insertAll.2 (Or.inr hx)
      have hleft : ∀ x ∈ a.names, known.contains x = true := by
        intro x hx
        rw [hknown, NameSet.contains_insertAll, NameSet.contains_insertAll]
        exact Or.inl (Or.inr hx)
      rw [OrderedSet.insertAll_eq_self hright, OrderedSet.insertAll_eq_self hleft]

lemma vars_toNnf (f : Formula) : f.toNnf.vars = f.vars :=
  insertAll_names_push true f ∅

lemma mem_names_iff_of_vars_eq {f g : Formula} (h : f.vars = g.vars) {x : String} :
    x ∈ f.names ↔ x ∈ g.names := by
  have hf : x ∈ f.vars.toList ↔ x ∈ f.names := mem_nameSet_ofList
  have hg : x ∈ g.vars.toList ↔ x ∈ g.names := mem_nameSet_ofList
  rw [← hf, ← hg, h]

/-- Where all names of the formula have values, evaluating its normal form gives the same value. -/
lemma evaluate_toNnf {s : Assignment} (h : ∀ x ∈ f.names, s.contains x = true) :
    ∃ value, f.evaluate s = .ok value ∧ f.toNnf.evaluate s = .ok value := by
  have hnnf : ∀ x ∈ f.toNnf.names, s.contains x = true := by
    intro x hx
    exact h x ((mem_names_iff_of_vars_eq (vars_toNnf f)).1 hx)
  refine ⟨_, evaluate_eq_ok false h, ?_⟩
  rw [evaluate_eq_ok false hnnf, evaluateOr, evaluateOr, eval_toNnf]

lemma expand_of_isNnf (h : IsNnf f) : f.expand = f := by
  induction h with
  | var x => rfl
  | neg x => rfl
  | conj ha hb iha ihb | disj ha hb iha ihb => rw [expand, iha, ihb]

lemma push_of_isNnf (h : IsNnf f) : push true f = f := by
  induction h with
  | var x => rfl
  | neg x => rfl
  | conj ha hb iha ihb | disj ha hb iha ihb => rw [push, iha, ihb]

lemma toNnf_of_isNnf (h : IsNnf f) : f.toNnf = f := by
  rw [toNnf, expand_of_isNnf h, push_of_isNnf h]

/-- **What negation normal form is.**  The strict pass comes through and gives the normal form,
which has nothing but variables, negated variables, conjunctions and disjunctions in it, and the
names of the formula in the same order.  Under an assignment of these names both can be evaluated,
with the same value, and so they have under every valuation.  A second conversion changes
nothing. -/
theorem toNnf_normalizes (f : Formula) :
    f.toNnfStrict = .ok f.toNnf ∧ IsNnf f.toNnf ∧ f.toNnf.vars = f.vars ∧
    (∀ s : Assignment, (∀ x ∈ f.vars.toList, s.contains x = true) →
      ∃ value, f.evaluate s = .ok value ∧ f.toNnf.evaluate s = .ok value) ∧
    (∀ v : Valuation, f.toNnf.eval v = f.eval v) ∧
    f.toNnf.toNnf = f.toNnf ∧ f.toNnf.toNnfStrict = .ok f.toNnf := by
  have hstrict : ∀ g : Formula, g.toNnfStrict = .ok g.toNnf := pushStrict_expand true
  have hfixed : f.toNnf.toNnf = f.toNnf := toNnf_of_isNnf (isNnf_toNnf f)
  refine ⟨hstrict f, isNnf_toNnf f, vars_toNnf f, fun s hs => ?_, fun v => eval_toNnf f, hfixed, ?_⟩
  · exact evaluate_toNnf fun x hx => hs x (mem_nameSet_ofList.2 hx)
  · rw [hstrict, hfixed]

-- The strict pass does stop where something is not written out.
example : pushStrict false (conj (var "P") (impl (var "P") (var "Q"))) = .error ⟨.impl, true⟩ := rfl

/-! ## Clausal form -/

/-- Where no disjunction has an operand that is always true there is nothing to prune. -/
lemma pruned_eq_self (h : ∀ a b, disj a b ∈ f.subformulas →
    a.isTautology = false ∧ b.isTautology = false) : f.pruned = f := by
  induction f with
  | conj a b iha ihb =>
      have ha := iha fun c d hcd => h c d (by simp [subformulas, hcd])
      have hb := ihb fun c d hcd => h c d (by simp [subformulas, hcd])
      rw [pruned, ha, hb]
  | disj a b iha ihb =>
      have ha := iha fun c d hcd => h c d (by simp [subformulas, hcd])
      have hb := ihb fun c d hcd => h c d (by simp [subformulas, hcd])
      obtain ⟨hat, hbt⟩ := h a b (self_mem_subformulas _)
      simp [pruned, ha, hb, hat, hbt]
  | _ => rfl

/-- **What clauses say of their formula.**  A valuation that makes all of them true makes the
formula true.  If no disjunction of the normal form has an operand that is always true, then a
valuation that makes the formula true makes all of them true.  There are none at all only for a
formula that is always true. -/
theorem toCnf_exact_reach (f : Formula) :
    (∀ v : Valuation, (∀ c ∈ f.toCnf.toList, ∃ l ∈ c.toList, l.eval v = true) →
      f.eval v = true) ∧
    ((∀ a b, disj a b ∈ f.toNnf.subformulas →
        (¬ ∀ v : Valuation, a.eval v = true) ∧ ¬ ∀ v : Valuation, b.eval v = true) →
      ∀ v : Valuation, f.eval v = true →
        ∀ c ∈ f.toCnf.toList, ∃ l ∈ c.toList, l.eval v = true) ∧
    (f.toCnf.isEmpty = true → ∀ v : Valuation, f.eval v = true) := by
  have hclauses : ∀ v : Valuation,
      (∀ c ∈ f.toCnf.toList, ∃ l ∈ c.toList, l.eval v = true) ↔ f.toCnf.eval v = true := by
    intro v
    simp only [Cnf.eval_iff, Clause.eval_iff]
  refine ⟨fun v hv => f.eval_of_toCnf ((hclauses v).1 hv), fun hopen v hv => ?_,
    fun hempty v => ?_⟩
  · have hpruned : f.toNnf.pruned = f.toNnf := by
      refine pruned_eq_self fun a b hab => ?_
      rw [← Bool.not_eq_true, ← Bool.not_eq_true, isTautology_iff, isTautology_iff]
      exact hopen a b hab
    rw [hclauses, eval_toCnf, hpruned, eval_toNnf, hv]
  · have hall : ∀ v : Valuation, f.toCnf.eval v = true :=
      (Cnf.reduced_ofNnf f.toNnf).isEmpty_iff.1 hempty
    exact f.eval_of_toCnf (hall v)

end Formula

end AnnealProver
