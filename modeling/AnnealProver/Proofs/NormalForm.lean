import AnnealProver.Proofs.Clauses

/-!
# What normal forms say

Negation normal form keeps the truth value (`eval_toNnf`) and leaves only variables, negated
variables, conjunctions and disjunctions (`isNnf_toNnf`).

Clausal form is another matter.  Clauses that are true anyway are left out, so a subformula that is
always true may have no clause at all, and distributing a disjunction takes the other side as it
stands when one side has none.  **What a clause set really says** is therefore the formula pruned of
such operands: `Formula.pruned` drops from a disjunction the operand that is always true instead of
the whole disjunction, and `eval_ofNnf` shows that this describes the conversion exactly.
-/

namespace AnnealProver

variable {v : Valuation}

namespace Formula

/-! ## Negation normal form -/

/-- Only variables, negated variables, conjunctions and disjunctions. -/
inductive IsNnf : Formula → Prop
  | var (x : String) : IsNnf (var x)
  | neg (x : String) : IsNnf (neg (var x))
  | conj {a b : Formula} (ha : IsNnf a) (hb : IsNnf b) : IsNnf (conj a b)
  | disj {a b : Formula} (ha : IsNnf a) (hb : IsNnf b) : IsNnf (disj a b)

lemma eval_expand (f : Formula) : f.expand.eval v = f.eval v := by
  induction f with
  | var x => rfl
  | neg a ih => simp only [expand, eval, ih]
  | conj a b iha ihb | disj a b iha ihb | impl a b iha ihb => simp only [expand, eval, iha, ihb]
  | iff a b iha ihb =>
      simp only [expand, eval, iha, ihb]
      cases a.eval v <;> cases b.eval v <;> rfl

lemma eval_push (positive : Bool) (f : Formula) :
    (push positive f).eval v = (f.eval v == positive) := by
  induction f generalizing positive with
  | var x => cases positive <;> simp [push, eval]
  | neg a ih => cases positive <;> simp [push, eval, ih]
  | conj a b iha ihb => cases positive <;> simp [push, eval, iha, ihb]
  | disj a b iha ihb => cases positive <;> simp [push, eval, iha, ihb]
  | impl a b _ _ => cases positive <;> simp [push, eval]
  | iff a b _ _ => cases positive <;> simp [push, eval]

lemma eval_toNnf (f : Formula) : f.toNnf.eval v = f.eval v := by
  simp [toNnf, eval_push, eval_expand]

/-- Pushing the negations of a formula whose implications and equivalences are written out leaves
negations at variables only. -/
lemma isNnf_push_expand (positive : Bool) (f : Formula) : IsNnf (push positive f.expand) := by
  induction f generalizing positive with
  | var x => cases positive with
    | false => exact .neg x
    | true => exact .var x
  | neg a ih => cases positive with
    | false => exact ih true
    | true => exact ih false
  | conj a b iha ihb => cases positive with
    | false => exact .disj (iha false) (ihb false)
    | true => exact .conj (iha true) (ihb true)
  | disj a b iha ihb => cases positive with
    | false => exact .conj (iha false) (ihb false)
    | true => exact .disj (iha true) (ihb true)
  | impl a b iha ihb => cases positive with
    | false => exact .conj (iha true) (ihb false)
    | true => exact .disj (iha false) (ihb true)
  | iff a b iha ihb => cases positive with
    | false => exact .disj (.conj (iha true) (ihb false)) (.conj (ihb true) (iha false))
    | true => exact .conj (.disj (iha false) (ihb true)) (.disj (ihb false) (iha true))

lemma isNnf_toNnf (f : Formula) : IsNnf f.toNnf :=
  isNnf_push_expand true f

end Formula

/-! ## Clauses that are true anyway -/

namespace Clause

variable {c : Clause}

lemma eval_of_isTautology (h : c.isTautology = true) : c.eval v = true := by
  obtain ⟨x, hpositive, hnegative⟩ := isTautology_iff.1 h
  rw [eval_iff]
  cases hx : v x with
  | false => exact ⟨_, hnegative, by simp [Literal.eval, hx]⟩
  | true => exact ⟨_, hpositive, by simp [Literal.eval, hx]⟩

/-- Any other clause is false where exactly the negated names are true. -/
lemma exists_eval_false (h : c.isTautology = false) : ∃ v : Valuation, c.eval v = false := by
  refine ⟨fun x => c.contains ⟨x, false⟩, ?_⟩
  rw [← Bool.not_eq_true, eval_iff]
  rintro ⟨⟨x, b⟩, hl, hlv⟩
  cases b with
  | false =>
      rw [Literal.eval, contains_iff_mem.2 hl] at hlv
      simp at hlv
  | true =>
      have hnegative : ⟨x, false⟩ ∈ c.toList := by simpa [Literal.eval] using hlv
      simp [isTautology_iff.2 ⟨x, hl, hnegative⟩] at h

/-- What is so of a clause that is true anyway need only be asked of the others. -/
lemma unless_isTautology_iff {P : Prop} (h : c.isTautology = true → P) :
    (c.isTautology = false → P) ↔ P := by
  refine ⟨fun hP => ?_, fun hP _ => hP⟩
  cases htaut : c.isTautology with
  | false => exact hP htaut
  | true => exact h htaut

lemma eval_unless_isTautology : (c.isTautology = false → c.eval v = true) ↔ c.eval v = true :=
  unless_isTautology_iff eval_of_isTautology

/-- Clauses with the same literals are true anyway together. -/
lemma respects_isTautology : OrderedSet.Respects same fun c => c.isTautology = false := by
  intro c d h
  simp only [← Bool.not_eq_true, isTautology_iff, same_iff.1 h]

end Clause

namespace Cnf

variable {f g : Cnf}

lemma eval_iff : f.eval v = true ↔ ∀ c ∈ f.toList, c.eval v = true := by
  simp [eval]

lemma mem_vars_iff {x : String} :
    x ∈ f.vars.toList ↔ ∃ c ∈ f.toList, ∃ l ∈ c.toList, l.name = x := by
  simp only [vars, Clause.vars, mem_nameSet_ofList, List.mem_flatMap, List.mem_map]

/-! ## Clause sets by their clauses

What an operation makes of a clause set is said by what is true of all clauses of the result, for
any statement that does not tell apart clauses with the same literals.  A clause that is true anyway
is not added, so nothing is asked of it. -/

section Members

variable {P : Clause → Prop}

lemma forall_add (hP : OrderedSet.Respects Clause.same P) (c : Clause) :
    (∀ d ∈ (f.add c).toList, P d) ↔
      (∀ d ∈ f.toList, P d) ∧ (c.isTautology = false → P c) := by
  rw [add]
  split_ifs with h
  · simp [h]
  · rw [Bool.not_eq_true] at h
    simp only [h, forall_const]
    exact OrderedSet.forall_insert hP

lemma forall_foldl_add (hP : OrderedSet.Respects Clause.same P) (cs : List Clause) :
    (∀ d ∈ (cs.foldl add f).toList, P d) ↔
      (∀ d ∈ f.toList, P d) ∧ ∀ c ∈ cs, c.isTautology = false → P c := by
  induction cs generalizing f with
  | nil => simp
  | cons c cs ih => rw [List.foldl_cons, ih, forall_add hP, List.forall_mem_cons, and_assoc]

lemma forall_union (hP : OrderedSet.Respects Clause.same P) :
    (∀ d ∈ (f.union g).toList, P d) ↔
      (∀ d ∈ f.toList, P d) ∧ ∀ c ∈ g.toList, c.isTautology = false → P c :=
  forall_foldl_add hP g.toList

lemma forall_ofList (hP : OrderedSet.Respects Clause.same P) (cs : List Clause) :
    (∀ d ∈ (ofList cs).toList, P d) ↔ ∀ c ∈ cs, c.isTautology = false → P c := by
  rw [ofList, forall_foldl_add hP]
  exact and_iff_right (by simp [toList])

lemma forall_distribute (hP : OrderedSet.Respects Clause.same P) :
    (∀ d ∈ (f.distribute g).toList, P d) ↔
      if f.isEmpty then ∀ d ∈ g.toList, P d
      else if g.isEmpty then ∀ c ∈ f.toList, P c
      else ∀ c ∈ f.toList, ∀ d ∈ g.toList, (c.union d).isTautology = false → P (c.union d) := by
  change (∀ d ∈ (if f.isEmpty then g else if g.isEmpty then f else _).toList, P d) ↔ _
  split_ifs
  · rfl
  · rfl
  · rw [forall_ofList hP]
    simp only [List.forall_mem_flatMap, List.forall_mem_map]

/-- If of every pair of clauses one or the other is as wanted, then one set is so throughout. -/
lemma forall_pairs_or_iff {Q : Clause → Prop} :
    (∀ c ∈ f.toList, ∀ d ∈ g.toList, P c ∨ Q d) ↔
      (∀ c ∈ f.toList, P c) ∨ ∀ d ∈ g.toList, Q d := by
  constructor
  · intro h
    by_contra hnot
    simp only [not_or, not_forall] at hnot
    obtain ⟨⟨c, hc, hP⟩, d, hd, hQ⟩ := hnot
    exact (h c hc d hd).elim hP hQ
  · exact fun h c hc d hd => h.imp (fun hall => hall c hc) fun hall => hall d hd

end Members

/-! ## What clause sets say -/

lemma eval_union : (f.union g).eval v = true ↔ f.eval v = true ∧ g.eval v = true := by
  simp only [eval_iff, forall_union (Clause.respects_eval v), Clause.eval_unless_isTautology]

/-- Pairing the clauses of two sets that both have some is a disjunction. -/
lemma eval_distribute (hf : f.isEmpty = false) (hg : g.isEmpty = false) :
    (f.distribute g).eval v = true ↔ f.eval v = true ∨ g.eval v = true := by
  have hunion : ∀ c d : Clause, (c.union d).eval v = true ↔ c.eval v = true ∨ d.eval v = true := by
    intro c d
    simp only [Clause.eval_iff, Clause.mem_union, or_and_right, exists_or]
  simp only [eval_iff, forall_distribute (Clause.respects_eval v), hf, hg, Bool.false_eq_true,
    if_false, Clause.eval_unless_isTautology]
  simp only [hunion, forall_pairs_or_iff]

/-! ## Clause sets without clauses that are true anyway -/

/-- No clause is true anyway. -/
def Reduced (f : Cnf) : Prop :=
  ∀ c ∈ f.toList, c.isTautology = false

lemma reduced_union_iff : (f.union g).Reduced ↔ f.Reduced := by
  rw [Reduced, forall_union Clause.respects_isTautology]
  exact and_iff_left fun _ _ h => h

lemma reduced_ofList (cs : List Clause) : (ofList cs).Reduced :=
  (forall_ofList Clause.respects_isTautology cs).2 fun _ _ h => h

/-- A disjunction can only have such a clause if it is one of two sets as it stands. -/
lemma reduced_distribute_iff : (f.distribute g).Reduced ↔
    (f.isEmpty = true → g.Reduced) ∧ (g.isEmpty = true → f.Reduced) := by
  rw [Reduced, forall_distribute Clause.respects_isTautology]
  split_ifs with hf hg
  · simp only [hf, forall_const, Reduced]
    refine (and_iff_left fun _ => ?_).symm
    simp_all [isEmpty, OrderedSet.isEmpty, toList]
  · simp [hf, hg, Reduced]
  · simp [hf, hg]

/-- Nothing but leaving out all clauses makes such a set true everywhere. -/
lemma Reduced.isEmpty_iff (hf : f.Reduced) : f.isEmpty = true ↔ ∀ v, f.eval v = true := by
  constructor
  · intro h v
    have hnil : f.toList = [] := by simpa [isEmpty, OrderedSet.isEmpty, toList] using h
    simp [eval, hnil]
  · intro h
    by_contra hne
    have hnil : f.toList ≠ [] := by simpa [isEmpty, OrderedSet.isEmpty, toList] using hne
    obtain ⟨c, hc⟩ := List.exists_mem_of_ne_nil _ hnil
    obtain ⟨v, hv⟩ := Clause.exists_eval_false (hf c hc)
    simp [eval_iff.1 (h v) c hc] at hv

lemma toList_ofLiteral (l : Literal) : (ofLiteral l).toList = [.ofList [l]] := rfl

lemma reduced_ofLiteral (l : Literal) : (ofLiteral l).Reduced := by
  intro c hc
  rw [toList_ofLiteral, List.mem_singleton] at hc
  subst hc
  rw [← Bool.not_eq_true, Clause.isTautology_iff]
  rintro ⟨x, hpositive, hnegative⟩
  simp only [Clause.mem_ofList, List.mem_singleton] at hpositive hnegative
  simp [← hpositive] at hnegative

lemma reduced_ofNnf (f : Formula) : (ofNnf f).Reduced := by
  fun_induction ofNnf f with
  | case1 x => exact reduced_ofLiteral _
  | case2 x => exact reduced_ofLiteral _
  | case3 a b iha ihb => exact reduced_union_iff.2 iha
  | case4 a b iha ihb => exact reduced_distribute_iff.2 ⟨fun _ => ihb, fun _ => iha⟩
  | case5 => exact fun c hc => by simp [toList] at hc

end Cnf

/-! ## What the clauses say -/

namespace Formula

/-- Drops from every disjunction an operand that, pruned itself, is always true, and keeps the
other operand. -/
def pruned : Formula → Formula
  | conj a b => conj a.pruned b.pruned
  | disj a b =>
    if a.pruned.isTautology then b.pruned
    else if b.pruned.isTautology then a.pruned
    else disj a.pruned b.pruned
  | f => f

/-- Pruning loses models and never gains one. -/
lemma eval_of_pruned (f : Formula) (h : f.pruned.eval v = true) : f.eval v = true := by
  induction f with
  | conj a b iha ihb =>
      simp only [pruned, eval, Bool.and_eq_true] at h ⊢
      exact ⟨iha h.1, ihb h.2⟩
  | disj a b iha ihb =>
      simp only [pruned] at h
      simp only [eval, Bool.or_eq_true]
      split_ifs at h
      · exact Or.inr (ihb h)
      · exact Or.inl (iha h)
      · simp only [eval, Bool.or_eq_true] at h
        exact h.imp iha ihb
  | _ => exact h

/-- **The clauses of a formula say what is left of it when it is pruned.**  A reduced clause set is
empty exactly when it is always true, so the conversion takes one side of a disjunction as it stands
exactly where pruning does. -/
lemma eval_ofNnf {f : Formula} (hf : IsNnf f) : (Cnf.ofNnf f).eval v = f.pruned.eval v := by
  induction hf generalizing v with
  | var x => simp [Cnf.ofNnf, Cnf.eval, Cnf.toList_ofLiteral, Clause.eval_ofList, Literal.eval,
      pruned, eval]
  | neg x => simp [Cnf.ofNnf, Cnf.eval, Cnf.toList_ofLiteral, Clause.eval_ofList, Literal.eval,
      pruned, eval]
  | @conj a b _ _ iha ihb =>
      rw [Bool.eq_iff_iff, Cnf.ofNnf, Cnf.eval_union, iha, ihb]
      simp [pruned, eval]
  | @disj a b _ _ iha ihb =>
      have hempty : ∀ g : Formula, (∀ v : Valuation, (Cnf.ofNnf g).eval v = g.pruned.eval v) →
          (Cnf.ofNnf g).isEmpty = g.pruned.isTautology := by
        intro g hg
        rw [Bool.eq_iff_iff, (Cnf.reduced_ofNnf g).isEmpty_iff, isTautology_iff]
        simp only [hg]
      have ha := hempty a fun _ => iha
      have hb := hempty b fun _ => ihb
      simp only [Cnf.ofNnf, pruned]
      split_ifs with hat hbt
      · simp only [Cnf.distribute, Cnf.isEmpty] at ha ⊢
        simp [ha, hat, ihb]
      · simp only [Cnf.distribute, Cnf.isEmpty] at ha hb ⊢
        simp [ha, hb, hat, hbt, iha]
      · rw [Bool.not_eq_true] at hat hbt
        rw [Bool.eq_iff_iff, Cnf.eval_distribute (ha.trans hat) (hb.trans hbt), iha, ihb]
        simp [eval]

end Formula

/-- A clause set read as a formula has the same value; the one without clauses is true like the
formula that stands for truth. -/
lemma Cnf.eval_toFormula (f : Cnf) : f.toFormula.eval v = f.eval v := by
  rw [Cnf.toFormula, Cnf.eval]
  cases f.toList with
  | nil => simp [Formula.join?, Formula.eval]
  | cons c cs =>
      simp only [Formula.join?, List.map_cons, Option.getD_some, Formula.eval_foldl_conj]
      simp [List.all_map, Function.comp_def]

namespace Formula

lemma eval_toCnf (f : Formula) : f.toCnf.eval v = f.toNnf.pruned.eval v :=
  eval_ofNnf (isNnf_toNnf f)

/-- The clauses of a formula entail it. -/
lemma eval_of_toCnf (f : Formula) (h : f.toCnf.eval v = true) : f.eval v = true := by
  rw [eval_toCnf] at h
  rw [← eval_toNnf]
  exact eval_of_pruned _ h

/-- **When clausal form keeps the meaning.**  Under every valuation the clauses of a formula are all
true exactly when its pruned negation normal form is.  So the clauses say the same as the formula,
for all valuations or equivalently for the truth table, exactly when no model of the formula is lost
by pruning. -/
theorem toCnf_keeps_meaning_iff (f : Formula) :
    (∀ v : Valuation, (∀ c ∈ f.toCnf.toList, ∃ l ∈ c.toList, l.eval v = true) ↔
        f.toNnf.pruned.eval v = true) ∧
      ((∀ v : Valuation, f.eval v = true ↔
          ∀ c ∈ f.toCnf.toList, ∃ l ∈ c.toList, l.eval v = true) ↔
        ∀ v : Valuation, f.eval v = true → f.toNnf.pruned.eval v = true) ∧
      (f.isEquivalent f.toCnf.toFormula = true ↔
        ∀ v : Valuation, f.eval v = true → f.toNnf.pruned.eval v = true) := by
  have hclauses : ∀ v : Valuation,
      (∀ c ∈ f.toCnf.toList, ∃ l ∈ c.toList, l.eval v = true) ↔ f.toNnf.pruned.eval v = true := by
    intro v
    simp only [← eval_toCnf, Cnf.eval_iff, Clause.eval_iff]
  have hmodels : (∀ v : Valuation, f.eval v = true ↔ f.toNnf.pruned.eval v = true) ↔
      ∀ v : Valuation, f.eval v = true → f.toNnf.pruned.eval v = true := by
    refine forall_congr' fun v => ⟨Iff.mp, fun h => ⟨h, fun hv => ?_⟩⟩
    rw [← eval_toCnf] at hv
    exact f.eval_of_toCnf hv
  refine ⟨hclauses, ?_, ?_⟩
  · simp only [hclauses]
    exact hmodels
  · rw [isEquivalent_iff, ← hmodels]
    refine forall_congr' fun v => ?_
    rw [Cnf.eval_toFormula, eval_toCnf, Bool.eq_iff_iff]

/-- A disjunction with an operand that is always true is always true, but its clauses are those of
the other operand. -/
theorem toCnf_loses_models :
    ¬ ∀ (f : Formula) (v : Valuation), f.eval v = true ↔
      ∀ c ∈ f.toCnf.toList, ∃ l ∈ c.toList, l.eval v = true := by
  intro h
  have hQ := h (.disj (.disj (.var "P") (.neg (.var "P"))) (.var "Q")) fun _ => false
  revert hQ
  decide

end Formula

end AnnealProver
