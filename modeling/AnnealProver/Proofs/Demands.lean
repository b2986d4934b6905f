import Mathlib.Tactic.Ring
import AnnealProver.Energy.Demand
import AnnealProver.Proofs.Encoding

/-!
# What demands cost

A demand on the truth values of formulas is turned into an energy on their bits.  The energy
**tells** whether the demand is met at a zero-one point if it costs nothing where it is met, and
something where it is not.  Two of them do not tell what they are meant to tell.

**At least one.**  The energy is the square of the distance between the number of formulas that are
one and the number one.  So it asks for exactly one, and it is right at the points where no more
than one is (`Demands.atLeastOne_tells_iff`).

**Inferences.**  The energy of an inference adds up what each premise costs without the conclusion.
So it asks that every single premise implies the conclusion, not that all of them together do.  It
is right where the conclusion is one, and where there are premises and all of them have the same
value (`Demands.inference_tells_iff`).

Bits are handed out while demands are made, so a value is always that of the bit which the encoder
has for the formula in the end (`Encoder.isOne`).  What has been looked up does not change
(`Encoder.Run.isOne_eq`).
-/

namespace AnnealProver

variable {K : Type} {bits : Valuation}

/-! ## Bits of formulas -/

namespace Encoder

variable {e e' : Encoder} {F : Set Formula} {f : Formula} {x : Encoded}

/-- Whether the bit of the formula is one.  If the encoder has none for it yet, this is the bit that
it gives. -/
def isOne (e : Encoder) (bits : Valuation) (f : Formula) : Bool :=
  bits (e.encode f).1.name

lemma isOne_eq (h : e.formulas.get? f = some x) : e.isOne bits f = bits x.name := by
  rw [isOne, encode_known h]

lemma Run.isOne_eq (h : Run F e e') (hx : e.formulas.get? f = some x) :
    e'.isOne bits f = e.isOne bits f := by
  rw [Encoder.isOne_eq hx, Encoder.isOne_eq (h.get?_of_some hx)]

lemma isOne_nameOf (bits : Valuation) (h : e.formulas.get? f = some x) :
    bits (e.nameOf f) = e.isOne bits f := by
  rw [isOne_eq h, nameOf, h]
  rfl

end Encoder

namespace Demands

variable {d : Demands K} {demand : Demand} {weight : K} {f conclusion : Formula}
  {premises : List Formula}

lemma make_encoder :
    (d.make demand weight).2.encoder = (d.encoder.encodeAll demand.formulas).2 := by
  rw [make]
  split_ifs <;> rfl

lemma make_run : Encoder.Run Set.univ d.encoder (d.make demand weight).2.encoder := by
  rw [make_encoder]
  exact (Encoder.encodeAll_run _ _).1.mono (Set.subset_univ _)

/-- The formulas of a demand have bits afterwards. -/
lemma exists_get?_make (d : Demands K) (weight : K) (hf : f ∈ demand.formulas) :
    ∃ x, (d.make demand weight).2.encoder.formulas.get? f = some x := by
  rw [make_encoder]
  obtain ⟨x, -, hx⟩ := Encoder.exists_mem_encodeAll (e := d.encoder) hf
  exact ⟨x, hx⟩

/-- The energy of a demand is about the bits that its formulas have afterwards. -/
lemma make_energy : (d.make demand weight).1 =
    demand.energy weight fun f => .bit ((d.make demand weight).2.encoder.nameOf f) := by
  rw [make_encoder, make]
  split_ifs <;> rfl

/-- The implications of an inference, demanded one after the other. -/
def implications (d : Demands K) (premises : List Formula) (conclusion : Formula) (weight : K) :
    Demands K :=
  premises.foldl (fun d p => (d.make (.implication p conclusion) weight).2) d

lemma implications_cons (p : Formula) : d.implications (p :: premises) conclusion weight =
    (d.make (.implication p conclusion) weight).2.implications premises conclusion weight := rfl

lemma run_implications (d : Demands K) (premises : List Formula) (conclusion : Formula)
    (weight : K) :
    Encoder.Run Set.univ d.encoder (d.implications premises conclusion weight).encoder := by
  induction premises generalizing d with
  | nil => exact .refl
  | cons p premises ih => exact make_run.trans (ih _)

end Demands

/-! ## Telling -/

section Telling

variable [Field K] [LinearOrder K]

/-- At the point, the energy costs nothing if the condition is met and something if it is not. -/
structure Energy.Tells (e : Energy K) (bits : Valuation) (met : Prop) : Prop where
  free : met → e.cost bits = 0
  charged : ¬ met → 0 < e.cost bits

variable {e : Energy K} {met : Prop}

lemma Energy.Tells.eq_zero_iff (h : e.Tells bits met) : e.cost bits = 0 ↔ met :=
  ⟨fun hzero => by_contra fun hmet => (h.charged hmet).ne' hzero, h.free⟩

lemma Energy.Tells.nonneg (h : e.Tells bits met) : 0 ≤ e.cost bits := by
  by_cases hmet : met
  · exact (h.free hmet).ge
  · exact (h.charged hmet).le

lemma Energy.tells_iff (h : 0 ≤ e.cost bits) : e.Tells bits met ↔ (e.cost bits = 0 ↔ met) := by
  refine ⟨fun htells => htells.eq_zero_iff, fun hiff => ⟨hiff.2, fun hmet => ?_⟩⟩
  exact h.lt_of_ne fun hzero => hmet (hiff.1 hzero.symm)

end Telling

namespace Demands

variable [Field K] {d : Demands K} {demand : Demand} {weight : K} {f conclusion : Formula}
  {fs premises : List Formula}

lemma cost_bit_nameOf (d : Demands K) (weight : K) (bits : Valuation) (hf : f ∈ demand.formulas) :
    (Energy.bit ((d.make demand weight).2.encoder.nameOf f) : Energy K).cost bits =
      if (d.make demand weight).2.encoder.isOne bits f then 1 else 0 := by
  obtain ⟨x, hx⟩ := exists_get?_make d weight hf
  rw [Energy.cost_bit, Encoder.isOne_nameOf bits hx]

/-! ## At least one -/

/-- The cost goes with the square of the distance to one. -/
lemma cost_atLeastOne (d : Demands K) (weight : K) (bits : Valuation) (hfs : fs ≠ []) :
    (d.make (.atLeastOne fs) weight).1.cost bits =
      weight *
        ((fs.countP ((d.make (.atLeastOne fs) weight).2.encoder.isOne bits) : K) - 1) ^ 2 := by
  have htotal : (fs.map fun f => (Energy.bit
        ((d.make (.atLeastOne fs) weight).2.encoder.nameOf f) : Energy K).cost bits).sum =
      (fs.countP ((d.make (.atLeastOne fs) weight).2.encoder.isOne bits) : K) := by
    rw [← Energy.sum_map_ite_eq_countP]
    exact congrArg List.sum (List.map_congr_left fun f hf => cost_bit_nameOf d weight bits hf)
  rw [make_energy, Demand.energy, if_neg (by simpa using hfs)]
  simp only [Energy.cost_mul, Energy.cost_sub, Energy.cost_weight, Energy.cost_ofNat,
    Energy.cost_sum, List.map_map, Function.comp_def, htotal]
  push_cast
  ring

section Order

variable [LinearOrder K] [IsStrictOrderedRing K]

/-- What is asked for is exactly one. -/
lemma tells_exactly_one (hfs : fs ≠ []) (hweight : 0 < weight) (bits : Valuation) :
    (d.make (.atLeastOne fs) weight).1.Tells bits
      (fs.countP ((d.make (.atLeastOne fs) weight).2.encoder.isOne bits) = 1) := by
  have hcost := cost_atLeastOne d weight bits hfs
  rw [Energy.tells_iff (by rw [hcost]; positivity), hcost, mul_eq_zero, or_iff_right hweight.ne',
    sq_eq_zero_iff, sub_eq_zero, Nat.cast_eq_one]

/-- **Asking for at least one is asking for exactly one.**  For every nonempty list of formulas,
every positive weight and every encoder, the cost at a zero-one point is the weight times the square
of the distance between the number of formulas that are one, counted as they are listed, and the
number one.  So the energy tells whether exactly one formula is one.

It tells whether at least one formula is, as it is meant to, at the points where no more than one
is, and at all points exactly if one formula is listed. -/
theorem atLeastOne_tells_iff (d : Demands K) (fs : List Formula) (weight : K) (hfs : fs ≠ [])
    (hweight : 0 < weight) :
    let made := d.make (.atLeastOne fs) weight
    let ones := fun bits => fs.countP (made.2.encoder.isOne bits)
    let met := fun bits => ∃ f ∈ fs, made.2.encoder.isOne bits f = true
    (∀ bits, made.1.cost bits = weight * ((ones bits : K) - 1) ^ 2) ∧
    (∀ bits, made.1.Tells bits (ones bits = 1)) ∧
    (∀ bits, made.1.Tells bits (met bits) ↔ ones bits ≤ 1) ∧
    ((∀ bits, made.1.Tells bits (met bits)) ↔ fs.length = 1) := by
  intro made ones met
  have hexactly : ∀ bits, made.1.Tells bits (ones bits = 1) := tells_exactly_one hfs hweight
  have hmet : ∀ bits, met bits ↔ 0 < ones bits := fun bits => List.countP_pos_iff.symm
  have htells : ∀ bits, made.1.Tells bits (met bits) ↔ ones bits ≤ 1 := by
    intro bits
    rw [Energy.tells_iff (hexactly bits).nonneg, (hexactly bits).eq_zero_iff, hmet]
    omega
  refine ⟨fun bits => cost_atLeastOne d weight bits hfs, hexactly, htells, ?_⟩
  simp only [htells]
  constructor
  · intro hall
    have hlength : ones (fun _ => true) = fs.length := List.countP_eq_length.2 fun _ _ => rfl
    have hpos := List.length_pos_iff.2 hfs
    have hle := hall fun _ => true
    omega
  · intro hlength bits
    rw [← hlength]
    exact List.countP_le_length

/-- One of three, where a bit of a negation is among them. -/
theorem atLeastOne_tells_iff_of_three :
    let fs : List Formula := [.var "P", .neg (.var "Q"), .var "Q"]
    let made := ({ encoder := {} } : Demands ℚ).make (.atLeastOne fs) 50
    let bits : Valuation := fun n => n == "Q"
    fs ≠ [] ∧ (0 : ℚ) < 50 ∧
      made.1.Tells bits (∃ f ∈ fs, made.2.encoder.isOne bits f = true) := by
  intro fs made bits
  have hfs : fs ≠ [] := by simp [fs]
  have hweight : (0 : ℚ) < 50 := by norm_num
  refine ⟨hfs, hweight, ((atLeastOne_tells_iff _ fs 50 hfs hweight).2.2.1 bits).2 ?_⟩
  decide +kernel

/-- Two formulas that are both one cost as much as two that are both zero. -/
theorem atLeastOne_charges_two :
    let fs : List Formula := [.var "P", .var "Q"]
    let made := ({ encoder := {} } : Demands ℚ).make (.atLeastOne fs) 50
    let bits : Valuation := fun _ => true
    made.2.encoder.isOne bits (.var "P") = true ∧ made.1.cost bits = 50 ∧
      ¬ made.1.Tells bits (∃ f ∈ fs, made.2.encoder.isOne bits f = true) := by
  intro fs made bits
  have hones : fs.countP (made.2.encoder.isOne bits) = 2 := by decide +kernel
  have hcost : made.1.cost bits = 50 := by
    rw [cost_atLeastOne _ _ _ (by simp [fs]), hones]
    norm_num
  refine ⟨rfl, hcost, fun htells => ?_⟩
  have hfree := htells.free ⟨.var "P", List.mem_cons_self, rfl⟩
  rw [hcost] at hfree
  norm_num at hfree

end Order

/-! ## Inferences -/

lemma cost_make_implication :
    let made := d.make (.implication f conclusion) weight
    made.1.cost bits = if made.2.encoder.isOne bits conclusion then 0
      else weight * if made.2.encoder.isOne bits f then 1 else 0 := by
  intro made
  have hmem : f ∈ (Demand.implication f conclusion).formulas ∧
      conclusion ∈ (Demand.implication f conclusion).formulas := by simp [Demand.formulas]
  have hleft := cost_bit_nameOf d weight bits hmem.1
  have hright := cost_bit_nameOf d weight bits hmem.2
  rw [show made.1 = _ from make_energy, Demand.energy]
  simp only [Energy.cost_mul, Energy.cost_sub, Energy.cost_weight, Energy.cost_ofNat, hleft, hright]
  split_ifs <;> simp

lemma cost_total_make (hproper : demand.isProper = true) :
    (d.make demand weight).2.total.cost bits =
      d.total.cost bits + (d.make demand weight).1.cost bits := by
  simp [make, hproper, total, Energy.cost_sum]

/-- What the implications cost, added up.  The bits of a premise and of the conclusion are looked up
when the premise has its turn, and are the same in the end. -/
lemma cost_implications (d : Demands K) (premises : List Formula) (conclusion : Formula)
    (weight : K) (bits : Valuation) :
    (d.implications premises conclusion weight).total.cost bits = d.total.cost bits +
      if (d.implications premises conclusion weight).encoder.isOne bits conclusion then 0
      else weight *
        (premises.countP ((d.implications premises conclusion weight).encoder.isOne bits) : K) := by
  induction premises generalizing d with
  | nil => simp [implications]
  | cons p premises ih =>
      have hmem : p ∈ (Demand.implication p conclusion).formulas ∧
          conclusion ∈ (Demand.implication p conclusion).formulas := by simp [Demand.formulas]
      obtain ⟨x, hx⟩ := exists_get?_make d weight hmem.1
      obtain ⟨y, hy⟩ := exists_get?_make d weight hmem.2
      have hrun :=
        run_implications (d.make (.implication p conclusion) weight).2 premises conclusion weight
      have hrest := ih (d.make (.implication p conclusion) weight).2
      rw [cost_total_make rfl, cost_make_implication, ← hrun.isOne_eq hx,
        ← hrun.isOne_eq hy] at hrest
      rw [implications_cons, hrest, List.countP_cons, add_assoc]
      split_ifs <;> simp [mul_add, add_comm]

/-- Every premise without the conclusion costs the weight. -/
lemma cost_inference (e : Encoder) :
    let made := inference e premises conclusion weight
    made.1.cost bits = if made.2.isOne bits conclusion then 0
      else weight * (premises.countP (made.2.isOne bits) : K) := by
  have hcost := cost_implications { encoder := e } premises conclusion weight bits
  rwa [show (total ({ encoder := e } : Demands K)).cost bits = 0 from Nat.cast_zero, zero_add]
    at hcost

section Order

variable [LinearOrder K] [IsStrictOrderedRing K]

/-- Where the energy tells whether the conclusion is one if all premises are. -/
lemma tells_inference_iff (e : Encoder) (premises : List Formula) (conclusion : Formula)
    (hweight : 0 < weight) :
    let made := inference e premises conclusion weight
    made.1.Tells bits ((∀ p ∈ premises, made.2.isOne bits p = true) →
        made.2.isOne bits conclusion = true) ↔
      made.2.isOne bits conclusion = true ∨
        premises ≠ [] ∧ ((∀ p ∈ premises, made.2.isOne bits p = true) ∨
          ∀ p ∈ premises, made.2.isOne bits p = false) := by
  intro made
  have hcost : made.1.cost bits = if made.2.isOne bits conclusion then 0
      else weight * (premises.countP (made.2.isOne bits) : K) := cost_inference e
  have hnonneg : 0 ≤ made.1.cost bits := by
    rw [hcost]
    split_ifs <;> positivity
  have hzero : weight * (premises.countP (made.2.isOne bits) : K) = 0 ↔
      ∀ p ∈ premises, made.2.isOne bits p = false := by
    simp [hweight.ne', List.countP_eq_zero]
  -- with a premise at hand, not all of them are both one and zero
  have hne : premises ≠ [] ↔ ¬ ((∀ p ∈ premises, made.2.isOne bits p = true) ∧
      ∀ p ∈ premises, made.2.isOne bits p = false) := by
    cases premises <;> simp +contextual
  rw [Energy.tells_iff hnonneg, hcost]
  cases hone : made.2.isOne bits conclusion with
  | true => simp
  | false =>
      simp only [Bool.false_eq_true, if_false, hzero, hne]
      tauto

/-- **An inference is asked for premise by premise.**  For every encoder, all premises, every
conclusion and every positive weight, the energy costs nothing where the conclusion is one, and
elsewhere the weight for each premise that is one.

It tells whether the conclusion is one if all premises are, as it is meant to, at the points where
the conclusion is one, or where there are premises and all of them have the same value; and at all
points exactly if there are premises and all of them have the same bit. -/
theorem inference_tells_iff (e : Encoder) (premises : List Formula) (conclusion : Formula)
    (weight : K) (hweight : 0 < weight) :
    let made := inference e premises conclusion weight
    let met := fun bits => (∀ p ∈ premises, made.2.isOne bits p = true) →
      made.2.isOne bits conclusion = true
    (∀ bits, made.1.cost bits = if made.2.isOne bits conclusion then 0
      else weight * (premises.countP (made.2.isOne bits) : K)) ∧
    (∀ bits, made.1.Tells bits (met bits) ↔ made.2.isOne bits conclusion = true ∨
      premises ≠ [] ∧ ((∀ p ∈ premises, made.2.isOne bits p = true) ∨
        ∀ p ∈ premises, made.2.isOne bits p = false)) ∧
    ((∀ bits, made.1.Tells bits (met bits)) ↔ premises ≠ [] ∧
      ∀ p ∈ premises, ∀ q ∈ premises, (made.2.encode p).1.name = (made.2.encode q).1.name) := by
  intro made met
  have hcost : ∀ bits, made.1.cost bits = if made.2.isOne bits conclusion then 0
      else weight * (premises.countP (made.2.isOne bits) : K) := fun bits => cost_inference e
  have htells : ∀ bits, made.1.Tells bits (met bits) ↔ made.2.isOne bits conclusion = true ∨
      premises ≠ [] ∧ ((∀ p ∈ premises, made.2.isOne bits p = true) ∨
        ∀ p ∈ premises, made.2.isOne bits p = false) :=
    fun bits => tells_inference_iff e premises conclusion hweight
  refine ⟨hcost, htells, ?_⟩
  constructor
  · intro hall
    have hne : premises ≠ [] := (((htells fun _ => false).1 (hall _)).resolve_left (by
      simp [Encoder.isOne])).1
    refine ⟨hne, fun p hp q hq => by_contra fun hdiffer => ?_⟩
    -- one of the two premises does not share its bit with the conclusion
    wlog hother : (made.2.encode conclusion).1.name ≠ (made.2.encode p).1.name generalizing p q
    · rw [not_not] at hother
      exact this q hq p hp (Ne.symm hdiffer) (by rwa [hother])
    -- at the point where this bit alone is one, a premise costs something although another is zero
    rcases (htells fun n => n == (made.2.encode p).1.name).1 (hall _) with hone | ⟨-, hsame | hsame⟩
    · exact hother (beq_iff_eq.1 hone)
    · exact hdiffer (beq_iff_eq.1 (hsame q hq)).symm
    · exact absurd (hsame p hp) (by simp [Encoder.isOne])
  · rintro ⟨hne, hsame⟩ bits
    obtain ⟨p, hp⟩ := List.exists_mem_of_ne_nil _ hne
    have hvalue : ∀ q ∈ premises, made.2.isOne bits q = made.2.isOne bits p := by
      intro q hq
      rw [Encoder.isOne, Encoder.isOne, hsame q hq p hp]
    rw [htells]
    refine Or.inr ⟨hne, ?_⟩
    cases hone : made.2.isOne bits p with
    | true => exact Or.inl fun q hq => (hvalue q hq).trans hone
    | false => exact Or.inr fun q hq => (hvalue q hq).trans hone

/-- Modus ponens with both premises one and the conclusion zero. -/
theorem inference_tells_iff_ponens :
    let premises : List Formula := [.var "P", .impl (.var "P") (.var "Q")]
    let made := inference {} premises (.var "Q") (10 : ℚ)
    let bits : Valuation := fun n => n != "Q"
    (0 : ℚ) < 10 ∧ made.1.Tells bits ((∀ p ∈ premises, made.2.isOne bits p = true) →
      made.2.isOne bits (.var "Q") = true) := by
  intro premises made bits
  have hweight : (0 : ℚ) < 10 := by norm_num
  refine ⟨hweight, ((inference_tells_iff {} premises (.var "Q") 10 hweight).2.1 bits).2 ?_⟩
  exact Or.inr ⟨by simp [premises], Or.inl (by decide +kernel)⟩

/-- The energy is wrong both ways.  One premise without the other and without the conclusion is
charged, and the conclusion of an inference without premises may be missing at no cost. -/
theorem inference_wrong_both_ways :
    (let premises : List Formula := [.var "P", .var "Q"]
      let made := inference {} premises (.var "R") (10 : ℚ)
      let bits : Valuation := fun n => n == "P"
      made.2.isOne bits (.var "Q") = false ∧ made.1.cost bits = 10 ∧
        ¬ made.1.Tells bits ((∀ p ∈ premises, made.2.isOne bits p = true) →
          made.2.isOne bits (.var "R") = true)) ∧
    let made := inference {} [] (.var "R") (10 : ℚ)
    let bits : Valuation := fun _ => false
    made.2.isOne bits (.var "R") = false ∧ made.1.cost bits = 0 ∧
      ¬ made.1.Tells bits ((∀ p ∈ [], made.2.isOne bits p = true) →
        made.2.isOne bits (.var "R") = true) := by
  constructor
  · intro premises made bits
    have hmissing : made.2.isOne bits (.var "Q") = false := by decide +kernel
    have hconclusion : made.2.isOne bits (.var "R") = false := by decide +kernel
    have hones : premises.countP (made.2.isOne bits) = 1 := by decide +kernel
    have hcost : made.1.cost bits = 10 := by
      rw [cost_inference, hconclusion, hones]
      norm_num
    refine ⟨hmissing, hcost, fun htells => ?_⟩
    have hfree := htells.free fun hall => by
      rw [hall _ (by simp [premises])] at hmissing
      cases hmissing
    rw [hcost] at hfree
    norm_num at hfree
  · intro made bits
    have hcost : made.1.cost bits = 0 := by
      rw [cost_inference]
      simp
    refine ⟨rfl, hcost, fun htells => ?_⟩
    have hcharged := htells.charged fun hall => by cases hall (by simp)
    exact hcharged.ne' hcost

end Order

end Demands

end AnnealProver
