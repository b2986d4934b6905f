import AnnealProver.Proofs.PartialEvaluation

/-!
# Substitution and evaluation

Putting formulas in place of variables and then evaluating comes to the same as evaluating with
other values: those that the formulas put in have.  All places are filled at once from the old
values (`Valuation.through`, `Assignment.Carries`), so it does not matter whether a name that is
replaced occurs in what is put in.

For evaluation under an assignment the lookups tell the story.  What is looked up after a
substitution is what is looked up in the formulas put in, for each name that is looked up before it
(`lookups_substitute`), so a value is missing on one side exactly if one is missing on the other.
-/

namespace AnnealProver

variable {m : NameTable Formula} {v : Valuation} {a b : Assignment} {f : Formula}

/-- The value of each name is that of what is put in its place. -/
def Valuation.through (m : NameTable Formula) (v : Valuation) : Valuation :=
  fun x => (m.get? x).elim (v x) fun g => g.eval v

/-- The second assignment gives a name the value that what is put in its place has under the first,
and a name that stays the value that it has there. -/
def Assignment.Carries (m : NameTable Formula) (a b : Assignment) : Prop :=
  ∀ x, b.get? x = (m.get? x).elim (a.get? x) fun g => (g.evaluate a).toOption

namespace Formula

/-! ## What stands for a name -/

/-- What a substitution puts in the place of a name: the name itself if nothing else is given. -/
def image (m : NameTable Formula) (x : String) : Formula :=
  m.getD x (var x)

lemma image_of_some {x : String} {g : Formula} (h : m.get? x = some g) : image m x = g := by
  rw [image, Table.getD, h, Option.getD_some]

lemma image_of_none {x : String} (h : m.get? x = none) : image m x = var x := by
  rw [image, Table.getD, h, Option.getD_none]

lemma eval_image (x : String) : (image m x).eval v = v.through m x := by
  cases h : m.get? x with
  | none => rw [image_of_none h, Valuation.through, h, eval, Option.elim_none]
  | some g => rw [image_of_some h, Valuation.through, h, Option.elim_some]

/-! ## Induction on the formula -/

lemma eval_substitute (m : NameTable Formula) (v : Valuation) (f : Formula) :
    (f.substitute m).eval v = f.eval (v.through m) := by
  induction f with
  | var x => exact eval_image x
  | neg p ih => rw [substitute, eval, eval, ih]
  | conj p q ihp ihq | disj p q ihp ihq | impl p q ihp ihq | iff p q ihp ihq =>
      rw [substitute, eval, eval, ihp, ihq]

/-- Each occurrence of a name gives way to the names of what is put there. -/
lemma names_substitute (m : NameTable Formula) (f : Formula) :
    (f.substitute m).names = f.names.flatMap fun x => (image m x).names := by
  induction f with
  | var x => exact (List.flatMap_singleton _ _).symm
  | neg p ih => exact ih
  | conj p q ihp ihq | disj p q ihp ihq | impl p q ihp ihq | iff p q ihp ihq =>
      rw [substitute, names, names, ihp, ihq, List.flatMap_append]

lemma lookups_substitute (m : NameTable Formula) (v : Valuation) (f : Formula) :
    (f.substitute m).lookups v =
      (f.lookups (v.through m)).flatMap fun x => (image m x).lookups v := by
  induction f with
  | var x => exact (List.flatMap_singleton _ _).symm
  | neg p ih => exact ih
  | conj p q ihp ihq | disj p q ihp ihq =>
      -- the left side is as true before as after, so the right side is looked at in both or in none
      rw [substitute, lookups, lookups, ihp, ihq, eval_substitute, List.flatMap_append]
      split_ifs <;> rfl
  | impl p q ihp ihq | iff p q ihp ihq =>
      rw [substitute, lookups, lookups, ihp, ihq, List.flatMap_append]

end Formula

/-! ## Values that are carried over -/

namespace Assignment.Carries

lemma get?_eq (h : Carries m a b) (x : String) :
    b.get? x = ((Formula.image m x).evaluate a).toOption := by
  rw [h x]
  cases hx : m.get? x with
  | none =>
      rw [Formula.image_of_none hx, Option.elim_none]
      cases ha : a.get? x <;> simp [Formula.evaluate, ha, Except.toOption]
  | some g => rw [Formula.image_of_some hx, Option.elim_some]

lemma agrees (h : Carries m a b) (hv : a.Agrees v) : b.Agrees (v.through m) := by
  intro x value hx
  rw [h.get?_eq] at hx
  cases hvalue : (Formula.image m x).evaluate a with
  | error e => rw [hvalue] at hx; cases hx
  | ok found =>
      rw [hvalue] at hx
      rw [← Formula.eval_image, Formula.eval_of_evaluate hv hvalue]
      exact Option.some.inj hx

/-- A name has a value if nothing is missing in what is put in its place. -/
lemma contains_iff (h : Carries m a b) (hv : a.Agrees v) (x : String) :
    b.contains x = true ↔ ∀ y ∈ (Formula.image m x).lookups v, a.contains y = true := by
  rw [Table.contains_eq_isSome, h.get?_eq]
  cases hvalue : (Formula.image m x).evaluate a with
  | error e =>
      obtain ⟨hlookup, hmissing⟩ := Formula.missing_of_evaluate hv hvalue
      refine iff_of_false (by simp [Except.toOption]) fun hall => ?_
      rw [hall e.name hlookup] at hmissing
      cases hmissing
  | ok value => exact iff_of_true rfl ((Formula.evaluate_eq_ok_iff hv).1 hvalue).1

end Assignment.Carries

namespace Formula

/-- After a substitution a value is found exactly if it is found with the values carried over. -/
lemma evaluate_substitute_eq_ok_iff (h : Assignment.Carries m a b) {value : Bool} :
    (f.substitute m).evaluate a = .ok value ↔ f.evaluate b = .ok value := by
  have hv : a.Agrees (a.orElse false) := a.agrees_orElse false
  rw [evaluate_eq_ok_iff hv, evaluate_eq_ok_iff (h.agrees hv), lookups_substitute, eval_substitute,
    List.forall_mem_flatMap]
  simp only [h.contains_iff hv]

lemma mem_vars_substitute {y : String} :
    y ∈ (f.substitute m).vars.toList ↔
      (∃ x ∈ f.vars.toList, ∃ g, m.get? x = some g ∧ y ∈ g.vars.toList) ∨
        (y ∈ f.vars.toList ∧ m.get? y = none) := by
  simp only [vars, mem_nameSet_ofList, names_substitute, List.mem_flatMap]
  constructor
  · rintro ⟨x, hx, hy⟩
    cases hm : m.get? x with
    | none =>
        rw [image_of_none hm, names, List.mem_singleton] at hy
        subst hy
        exact Or.inr ⟨hx, hm⟩
    | some g =>
        rw [image_of_some hm] at hy
        exact Or.inl ⟨x, hx, g, hm, hy⟩
  · rintro (⟨x, hx, g, hm, hy⟩ | ⟨hy, hm⟩)
    · exact ⟨x, hx, by rwa [image_of_some hm]⟩
    · exact ⟨y, hy, by simp [image_of_none hm, names]⟩

/-- **Substitution is a change of values, and all at once.**  Under every valuation the formula
after the substitution has the value that it has before it when each replaced name takes the value
of what replaces it, and the others keep theirs.  Evaluation under an assignment comes to a value
exactly if it does with the values carried over, to the same one, and it does come to one if the
assignment has a value for each variable after the substitution.  These variables are those of what
replaces a variable of the formula, and the variables of the formula that are not replaced. -/
theorem substitute_changes_values (f : Formula) (m : NameTable Formula) :
    (∀ v : Valuation, (f.substitute m).eval v =
      f.eval fun x => (m.get? x).elim (v x) fun g => g.eval v) ∧
    (∀ a b : Assignment, a.Carries m b →
      (∀ value, (f.substitute m).evaluate a = .ok value ↔ f.evaluate b = .ok value) ∧
      ((∀ x ∈ (f.substitute m).vars.toList, a.contains x = true) →
        ∃ value, (f.substitute m).evaluate a = .ok value ∧ f.evaluate b = .ok value)) ∧
    ∀ y, y ∈ (f.substitute m).vars.toList ↔
      (∃ x ∈ f.vars.toList, ∃ g, m.get? x = some g ∧ y ∈ g.vars.toList) ∨
        (y ∈ f.vars.toList ∧ m.get? y = none) := by
  refine ⟨fun v => eval_substitute m v f, fun a b h => ⟨fun value => ?_, fun htotal => ?_⟩,
    fun y => mem_vars_substitute⟩
  · exact evaluate_substitute_eq_ok_iff h
  · have hvalue := evaluate_eq_ok false fun x hx => htotal x (mem_nameSet_ofList.2 hx)
    exact ⟨_, hvalue, (evaluate_substitute_eq_ok_iff h).1 hvalue⟩

/-- Two names change places: `P ∧ ¬Q` becomes `Q ∧ ¬P`, and has for `P` false and `Q` true the value
that it had for `P` true and `Q` false. -/
theorem substitute_changes_values_swap :
    let f : Formula := conj (var "P") (neg (var "Q"))
    let swap : NameTable Formula := ⟨[("P", var "Q"), ("Q", var "P")]⟩
    let a : Assignment := ⟨[("P", false), ("Q", true)]⟩
    let b : Assignment := ⟨[("P", true), ("Q", false)]⟩
    a.Carries swap b ∧ (∀ x ∈ (f.substitute swap).vars.toList, a.contains x = true) ∧
      f.substitute swap = conj (var "Q") (neg (var "P")) ∧
      ∃ value, (f.substitute swap).evaluate a = .ok value ∧ f.evaluate b = .ok value := by
  intro f swap a b
  have hcarries : a.Carries swap b := by
    intro x
    by_cases hP : "P" = x
    · subst hP
      rfl
    · by_cases hQ : "Q" = x
      · subst hQ
        rfl
      · simp [a, b, swap, Table.get?, hP, hQ]
  have htotal : ∀ x ∈ (f.substitute swap).vars.toList, a.contains x = true := by decide
  exact ⟨hcarries, htotal, rfl, ((substitute_changes_values f swap).2.1 a b hcarries).2 htotal⟩

end Formula

end AnnealProver
