import Mathlib.Algebra.BigOperators.Ring.List
import Mathlib.Algebra.Order.BigOperators.Group.List
import Mathlib.Algebra.Order.Field.Basic
import Mathlib.Tactic.Linarith
import Mathlib.Tactic.NormNum
import AnnealProver.Energy.Tie
import AnnealProver.Proofs.Meaning

/-!
# What energies cost at zero-one points

A zero-one point is a truth value for every bit, so it is again a `Valuation`, now of the names of
bits.  The **cost** of an energy is its exact value there, in any ordered field.

Energies are put together from parts that cost nothing or something positive, by adding up and by
multiplying with weights.  A sum of such parts costs nothing exactly when every part does
(`sum_map_eq_zero_iff`), which is how a ground state is taken apart again.

The parts that matter most are the **ties**: `Tie.cost_eq_zero_iff` says that a tie costs nothing
exactly where its bit has the truth value that the connective gives to the bits it is tied to.
-/

namespace AnnealProver

variable {K : Type} [Field K] {bits : Valuation}

namespace Energy

/-- The value at the point that is one at the true names and zero at the others. -/
def cost (bits : Valuation) (e : Energy K) : K :=
  e.value fun name => if bits name then 1 else 0

section Operations

variable (a b : Energy K)

@[simp] lemma cost_weight (c : K) : (weight c).cost bits = c := rfl

@[simp] lemma cost_bit (name : String) :
    (bit name : Energy K).cost bits = if bits name then 1 else 0 := rfl

@[simp] lemma cost_ofNat (n : ℕ) :
    (no_index (OfNat.ofNat n) : Energy K).cost bits = ((OfNat.ofNat n : ℕ) : K) := rfl

@[simp] lemma cost_add : (a + b).cost bits = a.cost bits + b.cost bits := rfl

@[simp] lemma cost_sub : (a - b).cost bits = a.cost bits - b.cost bits := rfl

@[simp] lemma cost_mul : (a * b).cost bits = a.cost bits * b.cost bits := rfl

@[simp] lemma cost_div : (a / b).cost bits = a.cost bits / b.cost bits := rfl

@[simp] lemma cost_square : a.square.cost bits = a.cost bits * a.cost bits := rfl

@[simp] lemma cost_asksFor (name : String) :
    (asksFor name : Energy K).cost bits = if bits name then 0 else 1 := by
  cases h : bits name <;> simp [asksFor, h]

end Operations

/-! ## Sums -/

lemma cost_foldl_add {α : Type} (part : α → Energy K) (xs : List α) (start : Energy K) :
    (xs.foldl (fun h x => h + part x) start).cost bits =
      start.cost bits + (xs.map fun x => (part x).cost bits).sum := by
  induction xs generalizing start with
  | nil => simp
  | cons x xs ih =>
      rw [List.foldl_cons, ih, cost_add, List.map_cons, List.sum_cons, add_assoc]

lemma cost_sum (es : List (Energy K)) : (sum es).cost bits = (es.map (cost bits)).sum := by
  cases es with
  | nil => simp [sum]
  | cons e es => exact cost_foldl_add (fun e => e) es e

lemma cost_weightedSum (factor : Energy K) (es : List (Energy K)) :
    (weightedSum factor es).cost bits = factor.cost bits * (es.map (cost bits)).sum := by
  rw [weightedSum, cost_sum, List.map_map, ← List.sum_map_mul_left]
  rfl

/-- Zeros and ones add up to the number of ones. -/
lemma sum_map_ite_eq_countP {α : Type} (xs : List α) (p : α → Bool) :
    (xs.map fun x => if p x then (1 : K) else 0).sum = (xs.countP p : K) := by
  induction xs with
  | nil => simp
  | cons x xs ih =>
      rw [List.map_cons, List.sum_cons, ih, List.countP_cons, add_comm]
      cases h : p x <;> simp

variable [LinearOrder K] [IsStrictOrderedRing K]

lemma sum_map_nonneg {α : Type} {xs : List α} {part : α → K} (h : ∀ x ∈ xs, 0 ≤ part x) :
    0 ≤ (xs.map part).sum := by
  refine List.sum_nonneg fun y hy => ?_
  obtain ⟨x, hx, rfl⟩ := List.mem_map.1 hy
  exact h x hx

/-- A sum of parts none of which is negative vanishes exactly when every part does. -/
lemma sum_map_eq_zero_iff {α : Type} {xs : List α} {part : α → K} (h : ∀ x ∈ xs, 0 ≤ part x) :
    (xs.map part).sum = 0 ↔ ∀ x ∈ xs, part x = 0 := by
  constructor
  · intro hsum x hx
    refine List.all_zero_of_le_zero_le_of_sum_eq_zero ?_ hsum (List.mem_map_of_mem hx)
    intro y hy
    obtain ⟨z, hz, rfl⟩ := List.mem_map.1 hy
    exact h z hz
  · intro hall
    rw [List.map_congr_left hall]
    simp

lemma sum_map_mul_nonneg {α : Type} {xs : List α} {part : α → K} {w : K} (hw : 0 ≤ w)
    (h : ∀ x ∈ xs, 0 ≤ part x) : 0 ≤ (xs.map fun x => w * part x).sum :=
  sum_map_nonneg fun x hx => mul_nonneg hw (h x hx)

lemma sum_map_mul_eq_zero_iff {α : Type} {xs : List α} {part : α → K} {w : K} (hw : 0 < w)
    (h : ∀ x ∈ xs, 0 ≤ part x) :
    (xs.map fun x => w * part x).sum = 0 ↔ ∀ x ∈ xs, part x = 0 := by
  rw [sum_map_eq_zero_iff fun x hx => mul_nonneg hw.le (h x hx)]
  exact forall₂_congr fun x _ => by rw [mul_eq_zero, or_iff_right hw.ne']

lemma cost_asksFor_nonneg (name : String) : 0 ≤ (asksFor name : Energy K).cost bits := by
  rw [cost_asksFor]
  split_ifs <;> norm_num

lemma cost_asksFor_eq_zero_iff {name : String} :
    (asksFor name : Energy K).cost bits = 0 ↔ bits name = true := by
  simp

end Energy

/-! ## Ties -/

namespace Tie

variable {t : Tie}

/-- The bit has the truth value that it is to have. -/
def Holds (bits : Valuation) : Tie → Prop
  | neg operand name => bits name = !bits operand
  | join c left right name => bits name = c.truth (bits left) (bits right)

/-- The cost is a matter of the bits that the tie is about. -/
lemma cost_congr {bits' : Valuation} (h : ∀ n ∈ t.name :: t.operands, bits n = bits' n) :
    (t.energy : Energy K).cost bits = (t.energy : Energy K).cost bits' := by
  cases t with
  | neg operand name =>
      simp only [Tie.name, operands, List.forall_mem_cons] at h
      simp [energy, h.1, h.2.1]
  | join c left right name =>
      simp only [Tie.name, operands, List.forall_mem_cons] at h
      cases c <;> simp [energy, h.1, h.2.1, h.2.2.1]

variable [LinearOrder K] [IsStrictOrderedRing K]

/-- Breaking a tie costs at least one, keeping it costs nothing.  All five energies are polynomials
in two or three bits, and the cases are the points. -/
lemma cost_cases (t : Tie) (bits : Valuation) :
    (t.Holds bits ∧ (t.energy : Energy K).cost bits = 0) ∨
      (¬ t.Holds bits ∧ 1 ≤ (t.energy : Energy K).cost bits) := by
  cases t with
  | neg operand name =>
      cases hx : bits operand <;> cases hn : bits name <;>
        norm_num [Holds, energy, hx, hn]
  | join c left right name =>
      cases c <;> cases hx : bits left <;> cases hy : bits right <;> cases hn : bits name <;>
        norm_num [Holds, energy, Connective.truth, hx, hy, hn]

lemma cost_nonneg (t : Tie) (bits : Valuation) : 0 ≤ (t.energy : Energy K).cost bits := by
  rcases cost_cases (K := K) t bits with ⟨-, h⟩ | ⟨-, h⟩ <;> linarith

lemma cost_eq_zero_iff : (t.energy : Energy K).cost bits = 0 ↔ t.Holds bits := by
  rcases cost_cases (K := K) t bits with ⟨hholds, h⟩ | ⟨hbroken, h⟩
  · exact ⟨fun _ => hholds, fun _ => h⟩
  · refine ⟨fun h0 => ?_, fun hholds => absurd hholds hbroken⟩
    linarith

end Tie

end AnnealProver
