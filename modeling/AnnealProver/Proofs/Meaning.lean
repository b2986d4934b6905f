import Mathlib.Logic.Function.DependsOn
import AnnealProver.Formula.Semantics
import AnnealProver.Proofs.Members

/-!
# What the truth of a formula depends on

Three facts that every argument about truth values rests on.

**Alike formulas are equally true** (`eval_eq_of_alike`): swapping the sides of a conjunction, a
disjunction or an equivalence does not change the value, so a set of formulas may keep either of
two alike ones.

**Only the names that occur matter** (`dependsOn_names`), which is what makes truth tables finite.

**The opposite has the opposite value** (`eval_opposite`), whether a negation was put on or taken
off.
-/

namespace AnnealProver

namespace Formula

variable {v : Valuation}

lemma alike_refl (f : Formula) : f.alike f = true := by
  induction f with
  | var x => simp [alike]
  | neg a ih => simpa [alike] using ih
  | conj a b iha ihb => simp [alike, iha, ihb]
  | disj a b iha ihb => simp [alike, iha, ihb]
  | impl a b iha ihb => simp [alike, iha, ihb]
  | iff a b iha ihb => simp [alike, iha, ihb]

/-- The one case of `eval_eq_of_alike` with an idea in it: a commutative operation gives the same
result on sides that match straight or crosswise. -/
lemma commutative_of_alike {op : Bool → Bool → Bool} (comm : ∀ x y, op x y = op y x)
    {a b c d : Formula} (iha : ∀ {g}, a.alike g = true → a.eval v = g.eval v)
    (ihb : ∀ {g}, b.alike g = true → b.eval v = g.eval v)
    (h : (a.alike c && b.alike d || a.alike d && b.alike c) = true) :
    op (a.eval v) (b.eval v) = op (c.eval v) (d.eval v) := by
  simp only [Bool.or_eq_true, Bool.and_eq_true] at h
  rcases h with ⟨hac, hbd⟩ | ⟨had, hbc⟩
  · rw [iha hac, ihb hbd]
  · rw [iha had, ihb hbc, comm]

/-- Formulas that differ only in the order of the sides of commutative connectives have the same
value. -/
lemma eval_eq_of_alike {f g : Formula} (h : f.alike g = true) : f.eval v = g.eval v := by
  induction f generalizing g with
  | var x => cases g <;> simp_all [alike, eval]
  | neg a ih =>
      cases g with
      | neg b => rw [eval, eval, ih h]
      | _ => simp [alike] at h
  | conj a b iha ihb =>
      cases g with
      | conj c d => exact commutative_of_alike Bool.and_comm iha ihb h
      | _ => simp [alike] at h
  | disj a b iha ihb =>
      cases g with
      | disj c d => exact commutative_of_alike Bool.or_comm iha ihb h
      | _ => simp [alike] at h
  | impl a b iha ihb =>
      cases g with
      | impl c d =>
          simp only [alike, Bool.and_eq_true] at h
          rw [eval, eval, iha h.1, ihb h.2]
      | _ => simp [alike] at h
  | iff a b iha ihb =>
      cases g with
      | iff c d =>
          have comm : ∀ x y : Bool, (x == y) = (y == x) := fun x y => Bool.beq_comm
          exact commutative_of_alike comm iha ihb h
      | _ => simp [alike] at h

/-- Truth under a valuation does not tell alike formulas apart. -/
lemma respects_eval (v : Valuation) (b : Bool) :
    OrderedSet.Respects alike fun f => f.eval v = b := by
  intro f g h
  simp only [eval_eq_of_alike h]

/-- The value of a formula depends only on the values of the names that occur in it. -/
lemma dependsOn_names (f : Formula) : DependsOn (fun v => f.eval v) {x | x ∈ f.names} := by
  intro v w h
  induction f with
  | var x => exact h x (by simp [names])
  | neg a ih => simp only [eval, ih h]
  | conj a b iha ihb | disj a b iha ihb | impl a b iha ihb | iff a b iha ihb =>
      have ha := iha fun x hx => h x (List.mem_append_left _ hx)
      have hb := ihb fun x hx => h x (List.mem_append_right _ hx)
      simp only [eval] at ha hb ⊢
      rw [ha, hb]

@[simp] lemma eval_opposite (f : Formula) : f.opposite.eval v = !f.eval v := by
  cases f <;> simp [opposite, eval]

end Formula

/-! ## Connectives

Where the four connectives are treated alike, a formula is a variable, a negation or two formulas
joined by some connective. -/

/-- The truth value that the connective gives to two truth values. -/
def Connective.truth : Connective → Bool → Bool → Bool
  | conj, x, y => x && y
  | disj, x, y => x || y
  | impl, x, y => !x || y
  | iff, x, y => x == y

namespace Formula

variable (c : Connective) (a b : Formula)

/-- Induction with one case for all connectives. -/
@[elab_as_elim]
lemma connectiveInduction {motive : Formula → Prop} (var : ∀ x, motive (.var x))
    (neg : ∀ a, motive a → motive (.neg a))
    (join : ∀ (c : Connective) (a b : Formula), motive a → motive b → motive (c.apply a b))
    (f : Formula) : motive f := by
  induction f with
  | var x => exact var x
  | neg a ih => exact neg a ih
  | conj a b iha ihb => exact join .conj a b iha ihb
  | disj a b iha ihb => exact join .disj a b iha ihb
  | impl a b iha ihb => exact join .impl a b iha ihb
  | iff a b iha ihb => exact join .iff a b iha ihb

@[simp] lemma eval_apply (v : Valuation) :
    (c.apply a b).eval v = c.truth (a.eval v) (b.eval v) := by
  cases c <;> rfl

@[simp] lemma names_apply : (c.apply a b).names = a.names ++ b.names := by
  cases c <;> rfl

@[simp] lemma size_apply : (c.apply a b).size = 1 + a.size + b.size := by
  cases c <;> rfl

@[simp] lemma subformulas_apply :
    (c.apply a b).subformulas = c.apply a b :: (a.subformulas ++ b.subformulas) := by
  cases c <;> rfl

lemma self_mem_subformulas (f : Formula) : f ∈ f.subformulas := by
  cases f <;> simp [subformulas]

/-- The variables among the parts of a formula are the names that occur in it. -/
lemma var_mem_subformulas {x : String} {f : Formula} : .var x ∈ f.subformulas ↔ x ∈ f.names := by
  induction f using connectiveInduction with
  | var y => simp [subformulas, names]
  | neg a ih => simp [subformulas, names, ih]
  | join c a b iha ihb => cases c <;> simp [subformulas, names, Connective.apply, iha, ihb]

lemma mem_names_of_mem_subformulas {x : String} {f g : Formula} (hg : g ∈ f.subformulas)
    (hx : x ∈ g.names) : x ∈ f.names := by
  induction f using connectiveInduction with
  | var y => rwa [List.mem_singleton.1 hg] at hx
  | neg a ih =>
      rcases List.mem_cons.1 hg with rfl | hg
      · exact hx
      · exact ih hg
  | join c a b iha ihb =>
      rw [subformulas_apply, List.mem_cons, List.mem_append] at hg
      rcases hg with rfl | hg | hg
      · exact hx
      · simp [iha hg]
      · simp [ihb hg]

@[simp] lemma names_opposite (f : Formula) : f.opposite.names = f.names := by
  cases f <;> rfl

end Formula

lemma mem_nameSet_ofList {x : String} {xs : List String} :
    x ∈ (OrderedSet.ofList xs : NameSet).toList ↔ x ∈ xs :=
  OrderedSet.mem_ofList_iff fun _ _ => eq_of_beq

lemma contains_nameSet {names : NameSet} {x : String} :
    names.contains x = true ↔ x ∈ names.toList := by
  simp [OrderedSet.contains_iff]

lemma nodup_nameSet (names : NameSet) : names.toList.Nodup :=
  OrderedSet.nodup (fun _ => beq_self_eq_true _) names

/-! ## Sets of true formulas -/

/-- Every member of the set is true. -/
def Satisfies (v : Valuation) (kb : FormulaSet) : Prop :=
  ∀ f ∈ kb.toList, f.eval v = true

lemma Satisfies.eval_of_contains {v : Valuation} {kb : FormulaSet} {f : Formula}
    (h : Satisfies v kb) (hf : kb.contains f = true) : f.eval v = true := by
  obtain ⟨g, hg, hgf⟩ := OrderedSet.contains_iff.1 hf
  rw [← Formula.eval_eq_of_alike hgf]
  exact h g hg

/-- What follows from formulas that all follow from the premises follows from the premises. -/
lemma Entails.trans {premises middle : List Formula} {conclusion : Formula}
    (hmiddle : ∀ f ∈ middle, Entails premises f) (h : Entails middle conclusion) :
    Entails premises conclusion :=
  fun v hv => h v fun f hf => hmiddle f hf v hv

end AnnealProver
