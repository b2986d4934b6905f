import AnnealProver.Energy.Gate
import AnnealProver.Proofs.Decoding

/-!
# What a gate costs and when it is used as it should be

A gate is judged twice: an energy charges for its misuse, and a check looks at the values of a
sample.  At a zero-one point the cost is a **count**: a gate whose control bit is one costs as much
as there are zeros among its premises and its conclusion, and one whose control bit is zero costs
one if its conclusion is one (`cost_energy`).  So it costs nothing exactly where the check passes
(`cost_eq_zero_iff`).

The gates of the board share bits, but costs that are not negative cannot make up for each other:
the energy of the board vanishes exactly where every one of its gates costs nothing.
-/

namespace AnnealProver

variable {K : Type} [Field K]

namespace Gate

variable {g : Gate} {bits : Valuation}

lemma cost_energy (g : Gate) (bits : Valuation) : (g.energy : Energy K).cost bits =
    if bits g.control then (((g.premises ++ [g.conclusion]).countP fun x => !bits x : ℕ) : K)
    else if bits g.conclusion then 1 else 0 := by
  rw [energy, Energy.cost_sum, List.map_append, List.sum_append, List.map_map]
  cases hcontrol : bits g.control with
  | false => simp [Function.comp_def, hcontrol]
  | true =>
      have hparts : ((g.premises ++ [g.conclusion]).map
          (Energy.cost bits ∘ fun x => (.bit g.control * .asksFor x : Energy K))) =
          (g.premises ++ [g.conclusion]).map fun x => if !bits x then (1 : K) else 0 := by
        refine List.map_congr_left fun x _ => ?_
        cases hx : bits x <;> simp [hcontrol, hx]
      rw [hparts, Energy.sum_map_ite_eq_countP]
      simp [hcontrol]

lemma holds_iff {s : Sample} (hs : s.Binary) : g.holds s.value = true ↔
    if s.point g.control then ∀ x ∈ g.premises ++ [g.conclusion], s.point x = true
    else s.point g.conclusion = false := by
  have hzero : (s.value g.conclusion == 0) = true ↔ s.point g.conclusion = false := by
    rw [hs.value_eq]
    cases s.point g.conclusion <;> decide
  -- the value of a bit is one where the point is true, by definition
  have hcheck : g.holds s.value =
      if s.point g.control then (g.premises ++ [g.conclusion]).all s.point
      else s.value g.conclusion == 0 := rfl
  rw [hcheck]
  split_ifs
  · exact List.all_eq_true
  · exact hzero

variable [LinearOrder K] [IsStrictOrderedRing K]

lemma cost_nonneg (g : Gate) (bits : Valuation) : 0 ≤ (g.energy : Energy K).cost bits := by
  rw [cost_energy]
  split_ifs
  · exact Nat.cast_nonneg _
  · exact zero_le_one
  · exact le_rfl

/-- **A gate costs nothing exactly where its check passes.** -/
lemma cost_eq_zero_iff {s : Sample} (hs : s.Binary) :
    (g.energy : Energy K).cost s.point = 0 ↔ g.holds s.value = true := by
  rw [cost_energy, holds_iff hs]
  split_ifs with hcontrol hconclusion
  · simp only [Nat.cast_eq_zero, List.countP_eq_zero, Bool.not_eq_true', Bool.not_eq_false]
  · simp [hconclusion]
  · simpa using hconclusion

end Gate

namespace BoardGate

variable [LinearOrder K] [IsStrictOrderedRing K]

/-- The energy charges for the gates by which samples are checked. -/
lemma charged_eq : charged = board.map (·.gate) := rfl

/-- **The energy of the board and its checks agree.**  For every positive penalty and every sample
of zeros and ones, in which a bit that is not mentioned counts as zero, the energy is not negative,
and it is zero exactly if the sample passes the checks of all gates. -/
theorem boardEnergy_agrees_with_checks {penalty : K} (hpenalty : 0 < penalty) {s : Sample}
    (hs : s.Binary) :
    0 ≤ (boardEnergy penalty).valueAt s ∧
      ((boardEnergy penalty).valueAt s = 0 ↔ ∀ b ∈ board, b.gate.holds s.value = true) := by
  have hvalue : (boardEnergy penalty).valueAt s =
      penalty * (charged.map fun g => (g.energy : Energy K).cost s.point).sum := by
    rw [Energy.valueAt_eq_cost hs, boardEnergy, Energy.cost_mul, Energy.cost_weight,
      Energy.cost_sum, List.map_map]
    rfl
  have hnonneg : ∀ g ∈ charged, 0 ≤ (g.energy : Energy K).cost s.point :=
    fun g _ => g.cost_nonneg s.point
  refine ⟨?_, ?_⟩
  · rw [hvalue]
    exact mul_nonneg hpenalty.le (Energy.sum_map_nonneg hnonneg)
  · rw [hvalue, mul_eq_zero, or_iff_right hpenalty.ne', Energy.sum_map_eq_zero_iff hnonneg,
      charged_eq, List.forall_mem_map]
    exact forall₂_congr fun b _ => Gate.cost_eq_zero_iff hs

/-- The bit `A` is the conclusion of three gates and a premise of a fourth one, and all of them are
used. -/
theorem boardEnergy_agrees_with_checks_shared :
    let s : Sample := ⟨[("A", 1), ("B", 1), ("And", 1), ("RL", 1), ("RR", 1), ("RAI", 1),
      ("OrAA", 1), ("RORI", 1), ("AndAA", 1), ("RANDI", 1), ("NQ", 0)]⟩
    (0 : ℚ) < 4 ∧ s.Binary ∧ (boardEnergy (4 : ℚ)).valueAt s = 0 := by
  intro s
  have hpenalty : (0 : ℚ) < 4 := by norm_num
  have hs : s.Binary := by decide
  exact ⟨hpenalty, hs, (boardEnergy_agrees_with_checks hpenalty hs).2.2 (by decide)⟩

end BoardGate

end AnnealProver
