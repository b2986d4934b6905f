import AnnealProver.Proofs.Likeness
import AnnealProver.Proofs.TruthTable

/-!
# Alike formulas are interchangeable

Sets, tables and membership tests take formulas as keys, and find them by their hash codes and by
being **alike**.  For this to be sound, being alike has to be an equivalence, alike formulas have to
have the same hash code, and nothing that is computed from a formula may depend on which of two
alike ones was kept.

What is computed from the parts of a formula, and does not mind a swap at the root, is covered by
`eq_of_alike`: depth, names and hash codes are of this kind.  A substitution gives formulas again,
and they are alike because the swaps stay where they were.
-/

namespace AnnealProver.Formula

variable {f g : Formula}

/-! ## What is computed from alike formulas -/

lemma depth_apply (c : Connective) (a b : Formula) :
    (c.apply a b).depth = 1 + max a.depth b.depth := by
  cases c <;> rfl

lemma depth_eq_of_alike (h : f.alike g = true) : f.depth = g.depth := by
  refine eq_of_alike depth (fun a b hab => ?_) (fun c a b a' b' hab hab' => ?_)
    (fun c _ a b => ?_) h
  · rw [depth, depth, hab]
  · rw [depth_apply, depth_apply, hab, hab']
  · rw [depth_apply, depth_apply, Nat.max_comm]

/-- The same names occur, though not in the same order. -/
lemma mem_names_iff_of_alike (h : f.alike g = true) (x : String) : x ∈ f.names ↔ x ∈ g.names := by
  rw [← eq_iff_iff]
  refine eq_of_alike (fun f => x ∈ f.names) (fun a b hab => hab) (fun c a b a' b' hab hab' => ?_)
    (fun c _ a b => ?_) h
  · simp only [names_apply, List.mem_append, hab, hab']
  · simp only [names_apply, List.mem_append, or_comm]

/-- Whatever hashes the tuples, as long as it does not tell equal ones apart. -/
lemma hashCode_eq_of_alike (hasher : Hasher) (h : f.alike g = true) :
    f.hashCode hasher = g.hashCode hasher := by
  refine eq_of_alike (hashCode hasher) (fun a b hab => ?_) (fun c a b a' b' hab hab' => ?_)
    (fun c hc a b => ?_) h
  · rw [hashCode, hashCode, hab]
  · cases c <;> simp only [Connective.apply, hashCode, hab, hab']
  · have hunordered : ∀ (node : String) (x y : Int),
        hasher.hash [.word node, .codes [x, y]] = hasher.hash [.word node, .codes [y, x]] := by
      intro node x y
      refine hasher.respects _ _ ?_
      simp [List.isEqv, HashPart.same]
    cases c with
    | impl => exact absurd rfl hc
    | conj | disj | iff => exact hunordered _ _ _

lemma substitute_apply (m : NameTable Formula) (c : Connective) (a b : Formula) :
    (c.apply a b).substitute m = c.apply (a.substitute m) (b.substitute m) := by
  cases c <;> rfl

/-- Putting the same formulas in place of the variables keeps formulas alike. -/
lemma substitute_alike (m : NameTable Formula) (h : f.alike g = true) :
    (f.substitute m).alike (g.substitute m) = true := by
  rw [alike_iff_reordered] at h ⊢
  induction h with
  | refl f => exact .refl _
  | symm _ ih => exact .symm ih
  | trans _ _ ih₁ ih₂ => exact .trans ih₁ ih₂
  | neg _ ih => exact .neg ih
  | join c _ _ ih ih' =>
      rw [substitute_apply, substitute_apply]
      exact .join c ih ih'
  | swap hc a b =>
      rw [substitute_apply, substitute_apply]
      exact .swap hc _ _

/-- Under an assignment of all names that occur, evaluation succeeds with the same value.  Where a
name is missing, one of two alike formulas may stop early and the other not. -/
lemma exists_evaluate_of_alike {s : Assignment} (h : f.alike g = true)
    (hs : ∀ x ∈ f.names, s.contains x = true) :
    ∃ value, f.evaluate s = .ok value ∧ g.evaluate s = .ok value := by
  refine ⟨f.evaluateOr s false, evaluate_eq_ok false hs, ?_⟩
  have hg : ∀ x ∈ g.names, s.contains x = true :=
    fun x hx => hs x ((mem_names_iff_of_alike h x).2 hx)
  rw [evaluate_eq_ok false hg, evaluateOr, evaluateOr, eval_eq_of_alike h]

/-! ## Lawful keys -/

/-- **Formulas are lawful keys.**  Being alike is an equivalence, the least one that swaps the sides
of conjunctions, disjunctions and equivalences; and alike formulas have the same hash code under
every way to hash tuples, the same names, depth and size, the same value under every assignment of
these names, and become alike formulas under every substitution. -/
theorem alike_is_lawful_key :
    Equivalence (fun f g : Formula => f.alike g = true) ∧
    (∀ f g : Formula, f.alike g = true ↔ Reordered f g) ∧
    ∀ f g : Formula, f.alike g = true →
      (∀ hasher : Hasher, f.hashCode hasher = g.hashCode hasher) ∧
      (∀ x, x ∈ f.vars.toList ↔ x ∈ g.vars.toList) ∧ f.depth = g.depth ∧ f.size = g.size ∧
      (∀ s : Assignment, (∀ x ∈ f.vars.toList, s.contains x = true) →
        ∃ value, f.evaluate s = .ok value ∧ g.evaluate s = .ok value) ∧
      ∀ m : NameTable Formula, (f.substitute m).alike (g.substitute m) = true := by
  refine ⟨⟨alike_refl, alike_symm, alike_trans⟩, fun f g => alike_iff_reordered, ?_⟩
  intro f g h
  refine ⟨fun hasher => hashCode_eq_of_alike hasher h, fun x => ?_, depth_eq_of_alike h,
    size_eq_of_alike h, fun s hs => ?_, fun m => substitute_alike m h⟩
  · rw [vars, vars, mem_nameSet_ofList, mem_nameSet_ofList]
    exact mem_names_iff_of_alike h x
  · exact exists_evaluate_of_alike h fun x hx => hs x (mem_nameSet_ofList.2 hx)

end AnnealProver.Formula
