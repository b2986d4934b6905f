import AnnealProver.Proofs.Meaning

/-!
# Evaluation under some of the values

An assignment may leave names without a value, and whether evaluation meets one of them depends on
what it looks up on its way.

**Lookups.**  `Formula.lookups` lists the names that are looked up, from left to right, when the
truth values are those of a valuation.  Under an assignment that the valuation agrees with,
evaluation complains about the first of them that has no value, and otherwise gives the truth value
(`evaluate_eq_elim`).  This is the one induction on what evaluation does; the rest of the file is
read off from it.

**Stability.**  A value is final: assignments that extend the one it was found under give it too,
and so does filling up with either default.  A complaint is honest: it names a variable of the
formula that has no value.
-/

namespace AnnealProver

lemma Table.contains_eq_isSome {κ υ : Type} {same : κ → κ → Bool} (t : Table same υ) (key : κ) :
    t.contains key = (t.get? key).isSome := by
  rw [Bool.eq_iff_iff]
  simp [contains, get?]

/-! ## Assignments and valuations that agree -/

namespace Assignment

variable {a b : Assignment} {v : Valuation}

/-- The valuation gives each name the value that the assignment gives it. -/
def Agrees (a : Assignment) (v : Valuation) : Prop :=
  ∀ x value, a.get? x = some value → v x = value

/-- All values of the second assignment are values of the first. -/
def Extends (b a : Assignment) : Prop :=
  ∀ x value, a.get? x = some value → b.get? x = some value

lemma agrees_orElse (a : Assignment) (default : Bool) : a.Agrees (a.orElse default) := by
  intro x value h
  simp [orElse, Table.getD, h]

lemma Extends.agrees (h : b.Extends a) (hv : b.Agrees v) : a.Agrees v :=
  fun x value hx => hv x value (h x value hx)

lemma Extends.contains (h : b.Extends a) {x : String} (hx : a.contains x = true) :
    b.contains x = true := by
  rw [Table.contains_eq_isSome] at hx ⊢
  obtain ⟨value, hvalue⟩ := Option.isSome_iff_exists.1 hx
  rw [h x value hvalue]
  rfl

end Assignment

/-! ## What is looked up -/

namespace Formula

variable {a b : Assignment} {v : Valuation} {f : Formula} {value : Bool}

/-- The names looked up in an evaluation, in order: the right side of a conjunction only if the left
one is true, the right side of a disjunction only if the left one is false. -/
def lookups (v : Valuation) : Formula → List String
  | var x => [x]
  | neg a => lookups v a
  | conj a b => lookups v a ++ if a.eval v then lookups v b else []
  | disj a b => lookups v a ++ if a.eval v then [] else lookups v b
  | impl a b | iff a b => lookups v a ++ lookups v b

/-- Only names of the formula are looked up. -/
lemma lookups_subset (v : Valuation) (f : Formula) : f.lookups v ⊆ f.names := by
  induction f with
  | var x => exact List.Subset.refl _
  | neg a ih => exact ih
  | conj a b iha ihb | disj a b iha ihb =>
      simp only [lookups, names]
      split_ifs
      · grind
      · grind
  | impl a b iha ihb | iff a b iha ihb =>
      simp only [lookups, names]
      grind

/-- Every evaluation looks something up. -/
lemma exists_mem_lookups (v : Valuation) (f : Formula) : ∃ x, x ∈ f.lookups v := by
  induction f with
  | var x => exact ⟨x, List.mem_singleton_self x⟩
  | neg a ih => exact ih
  | conj a b iha ihb | disj a b iha ihb | impl a b iha ihb | iff a b iha ihb =>
      obtain ⟨x, hx⟩ := iha
      exact ⟨x, List.mem_append_left _ hx⟩

/-- **Evaluation reads from left to right.**  It complains about the first name looked up that has
no value, and gives the truth value if there is no such name. -/
lemma evaluate_eq_elim (hv : a.Agrees v) (f : Formula) :
    f.evaluate a = ((f.lookups v).find? fun x => !a.contains x).elim (.ok (f.eval v))
      fun x => .error ⟨x⟩ := by
  induction f with
  | var x =>
      cases hx : a.get? x with
      | none => simp [evaluate, lookups, hx, Table.contains_eq_isSome]
      | some value =>
          have hvalue : v x = value := hv x value hx
          simp [evaluate, lookups, eval, hx, hvalue, Table.contains_eq_isSome]
  | neg p ih =>
      simp only [evaluate, lookups, ih]
      cases (p.lookups v).find? fun x => !a.contains x <;> rfl
  | conj p q ihp ihq | disj p q ihp ihq =>
      -- a missing name on the left is the first one; without it the left side has a value, which
      -- says whether anything is looked up on the right
      simp only [evaluate, lookups, ihp, List.find?_append]
      cases (p.lookups v).find? fun x => !a.contains x with
      | some x => rfl
      | none => cases hp : p.eval v <;> simp [eval, hp, ihq]
  | impl p q ihp ihq | iff p q ihp ihq =>
      simp only [evaluate, lookups, ihp, ihq, List.find?_append]
      cases (p.lookups v).find? fun x => !a.contains x with
      | some x => rfl
      | none => cases (q.lookups v).find? fun x => !a.contains x <;> simp [eval]

/-- Evaluation comes through exactly if all that is looked up has a value. -/
lemma evaluate_eq_ok_iff (hv : a.Agrees v) :
    f.evaluate a = .ok value ↔ (∀ x ∈ f.lookups v, a.contains x = true) ∧ f.eval v = value := by
  rw [evaluate_eq_elim hv]
  cases hmissing : (f.lookups v).find? fun x => !a.contains x with
  | none =>
      have hall : ∀ x ∈ f.lookups v, a.contains x = true := by
        simpa using List.find?_eq_none.1 hmissing
      simpa using fun _ => hall
  | some x =>
      have hx : a.contains x = false := by simpa using List.find?_some hmissing
      have hlookup : x ∈ f.lookups v := List.mem_of_find?_eq_some hmissing
      simp only [Option.elim_some, reduceCtorEq, false_iff]
      intro h
      rw [h.1 x hlookup] at hx
      cases hx

/-- A name that is complained about was looked up and has no value. -/
lemma missing_of_evaluate (hv : a.Agrees v) {e : MissingVariable} (h : f.evaluate a = .error e) :
    e.name ∈ f.lookups v ∧ a.contains e.name = false := by
  rw [evaluate_eq_elim hv] at h
  cases hmissing : (f.lookups v).find? fun x => !a.contains x with
  | none =>
      rw [hmissing] at h
      cases h
  | some x =>
      rw [hmissing] at h
      obtain rfl := Except.error.inj h
      exact ⟨List.mem_of_find?_eq_some hmissing, by simpa using List.find?_some hmissing⟩

/-- Where every name that occurs has a value, evaluation meets no missing one, and what is put in
for missing ones does not matter. -/
lemma evaluate_eq_ok (default : Bool) (h : ∀ x ∈ f.names, a.contains x = true) :
    f.evaluate a = .ok (f.evaluateOr a default) :=
  (evaluate_eq_ok_iff (a.agrees_orElse default)).2 ⟨fun x hx => h x (lookups_subset _ f hx), rfl⟩

/-- A formula that has values for all its names is true or false. -/
lemma evaluate_ne_false_iff (h : ∀ x ∈ f.names, a.contains x = true) :
    f.evaluate a ≠ .ok false ↔ f.evaluate a = .ok true := by
  rw [evaluate_eq_ok false h]
  cases f.evaluateOr a false <;> simp

/-! ## Stability -/

/-- The value found under an assignment is the value under every valuation that agrees with it. -/
lemma eval_of_evaluate (hv : a.Agrees v) (h : f.evaluate a = .ok value) : f.eval v = value :=
  ((evaluate_eq_ok_iff hv).1 h).2

/-- A larger assignment gives the same value: the same names are looked up, and they have values. -/
lemma evaluate_of_extends (hb : b.Extends a) (h : f.evaluate a = .ok value) :
    f.evaluate b = .ok value := by
  -- one valuation agrees with both assignments, so the lookups are the same
  have hagrees : b.Agrees (b.orElse false) := b.agrees_orElse false
  obtain ⟨hall, hvalue⟩ := (evaluate_eq_ok_iff (hb.agrees hagrees)).1 h
  exact (evaluate_eq_ok_iff hagrees).2 ⟨fun x hx => hb.contains (hall x hx), hvalue⟩

end Formula

namespace Assignment

variable {names : NameSet} {default : Bool}

lemma contains_fill (a : Assignment) {x : String} (hx : x ∈ names.toList) :
    (a.fill names default).contains x = true := by
  simpa [fill, Table.contains] using hx

lemma fill_agrees (a : Assignment) : (a.fill names default).Agrees (a.orElse default) := by
  intro x value h
  obtain ⟨entry, hentry, rfl⟩ := Option.map_eq_some_iff.1 h
  obtain ⟨y, -, rfl⟩ := List.mem_map.1 (List.mem_of_find?_eq_some hentry)
  have hyx : y = x := by simpa using List.find?_some hentry
  rw [hyx]
  rfl

end Assignment

namespace Formula

/-- Once the missing values are filled in nothing is missing. -/
lemma evaluateFilled_eq (a : Assignment) (default : Bool) (f : Formula) :
    f.evaluateFilled a default = .ok (f.evaluateOr a default) := by
  refine (evaluate_eq_ok_iff a.fill_agrees).2 ⟨fun x hx => a.contains_fill ?_, rfl⟩
  exact mem_nameSet_ofList.2 (lookups_subset _ f hx)

/-- **A value is final and a complaint is honest.**  A value found under an assignment is found
under every assignment that extends it, and when the missing values are filled in with a default,
whichever that is.  Filled evaluation always comes to a value.  Evaluation that does not come to a
value complains about a variable of the formula, and the variable has no value. -/
theorem evaluate_stable (f : Formula) (a : Assignment) :
    (∀ value, f.evaluate a = .ok value →
      (∀ b : Assignment, b.Extends a → f.evaluate b = .ok value) ∧
      ∀ default, f.evaluateFilled a default = .ok value) ∧
    (∀ default, ∃ value, f.evaluateFilled a default = .ok value) ∧
    ∀ e, f.evaluate a = .error e → e.name ∈ f.vars.toList ∧ a.contains e.name = false := by
  refine ⟨fun value h => ⟨fun b hb => evaluate_of_extends hb h, fun default => ?_⟩,
    fun default => ⟨_, evaluateFilled_eq a default f⟩, fun e h => ?_⟩
  · rw [evaluateFilled_eq, evaluateOr, eval_of_evaluate (a.agrees_orElse default) h]
  · obtain ⟨hlookup, hmissing⟩ := missing_of_evaluate (a.agrees_orElse false) h
    exact ⟨mem_nameSet_ofList.2 (lookups_subset _ f hlookup), hmissing⟩

/-- With `P` false, `P ∧ Q` is false for good although `Q` has no value; `P → Q` asks for `Q`. -/
theorem evaluate_stable_unread :
    let unread : Formula := conj (var "P") (var "Q")
    let read : Formula := impl (var "P") (var "Q")
    let a : Assignment := ⟨[("P", false)]⟩
    let b : Assignment := ⟨[("Q", true), ("P", false)]⟩
    b.Extends a ∧ unread.evaluate a = .ok false ∧ unread.evaluate b = .ok false ∧
      (∀ default, unread.evaluateFilled a default = .ok false) ∧
      read.evaluate a = .error ⟨"Q"⟩ ∧ "Q" ∈ read.vars.toList ∧ a.contains "Q" = false := by
  intro unread read a b
  have hextends : b.Extends a := by
    intro x value h
    have hx : "P" = x ∧ false = value := by simpa [a, Table.get?] using h
    obtain ⟨rfl, rfl⟩ := hx
    rfl
  obtain ⟨hlarger, hfilled⟩ := (evaluate_stable unread a).1 false rfl
  exact ⟨hextends, rfl, hlarger b hextends, hfilled, rfl, (evaluate_stable read a).2.2 ⟨"Q"⟩ rfl⟩

end Formula

/-- A conclusion that follows is found to be true wherever the premises are, if all its names have
values. -/
lemma Entails.evaluate_eq {premises : List Formula} {conclusion : Formula} {a : Assignment}
    (h : Entails premises conclusion) (hpremises : ∀ p ∈ premises, p.evaluate a = .ok true)
    (hnames : ∀ x ∈ conclusion.names, a.contains x = true) : conclusion.evaluate a = .ok true := by
  have htrue : conclusion.eval (a.orElse false) = true :=
    h _ fun p hp => Formula.eval_of_evaluate (a.agrees_orElse false) (hpremises p hp)
  rw [Formula.evaluate_eq_ok false hnames, Formula.evaluateOr, htrue]

end AnnealProver
