import Mathlib.Algebra.Order.Field.Basic
import Mathlib.Algebra.Order.Field.Rat
import AnnealProver.Learning.Features
import AnnealProver.Proofs.Likeness
import AnnealProver.Proofs.Rules

/-!
# Potentials and the rules they foretell

Six features of a problem say how much there is to do for a rule.  Each should be positive exactly
if the rule can be applied to the axioms.

A rule that works on one known formula at a time asks for a pattern: what the formula looks like,
and what else has to be known (`Rule.Fits`).  Alike formulas fit alike, so the set of the axioms has
a member that fits exactly if one of the axioms fits (`applies_iff_exists_fits`).  A potential
counts axioms, and is positive if there is one to count (`Feature.share_pos`).  So it remains to
compare two patterns on one formula.

They are the same, except for modus tollens.  The rule asks for the **opposite** of the right side
of an implication, its potential for the **negation**, and the two differ where the right side is a
negation itself.
-/

namespace AnnealProver

/-! ## Positive features -/

namespace Feature

lemma flag_pos {b : Bool} : 0 < flag b ↔ b = true := by
  cases b <;> simp [flag]

/-- A share is positive if anything was counted. -/
lemma share_pos {count total : Nat} : 0 < share count total ↔ 0 < count := by
  have hdenominator : (0 : Rat) < (max total 1 : Nat) := by
    exact_mod_cast Nat.lt_of_lt_of_le Nat.zero_lt_one (Nat.le_max_right total 1)
  have hquotient : 0 < (count : Rat) / (max total 1 : Nat) ↔ 0 < count := by
    rw [div_pos_iff_of_pos_right hdenominator, Nat.cast_pos]
  simp only [share]
  split_ifs with h
  · exact hquotient
  · refine iff_of_true one_pos (hquotient.1 ?_)
    exact one_pos.trans (not_le.1 h)

lemma total_eq_sum (counts : List Nat) : total counts = counts.sum :=
  List.sum_eq_foldl.symm

lemma total_map_pos {α : Type} {as : List α} {worth : α → Nat} :
    0 < total (as.map worth) ↔ ∃ a ∈ as, 0 < worth a := by
  rw [total_eq_sum, Nat.pos_iff_ne_zero, ne_eq, List.sum_eq_zero_iff]
  simp [Nat.pos_iff_ne_zero]

end Feature

/-- The feature of that name is there and is positive. -/
def Features.Positive (features : List Feature) (name : String) : Prop :=
  ∃ x, features.lookup name = some x ∧ 0 < x

lemma Features.positive_iff {features : List Feature} {name : String} {x : Rat}
    (h : features.lookup name = some x) : Positive features name ↔ 0 < x := by
  simp [Positive, h]

/-! ## Rules that work on one formula at a time -/

namespace Rule

variable {axioms : List Formula} {f g : Formula}

/-- The formula is one that the rule draws something from, given what else is among the axioms. -/
def Fits (axioms : List Formula) : Rule → Formula → Prop
  | modusPonens, .impl p _ => p.isAmong axioms = true
  | modusTollens, .impl _ q => q.opposite.isAmong axioms = true
  | conjElimLeft, .conj _ _ => True
  | negElim, .neg p => p.isAmong axioms = true
  | doubleNegElim, .neg (.neg _) => True
  | _, _ => False

/-- Alike formulas fit alike. -/
lemma respects_fits (rule : Rule) : OrderedSet.Respects Formula.alike (Fits axioms rule) := by
  intro f g h
  cases f <;> cases g <;> simp only [Formula.alike, Bool.false_eq_true] at h
  case neg.neg a b =>
    cases rule with
    | negElim => simp only [Fits, Formula.isAmong_congr h]
    | doubleNegElim => cases a <;> cases b <;> simp_all [Fits, Formula.alike]
    | _ => exact Iff.rfl
  case impl.impl p q p' q' =>
    rw [Bool.and_eq_true] at h
    cases rule with
    | modusPonens => simp only [Fits, Formula.isAmong_congr h.1]
    | modusTollens => simp only [Fits, Formula.isAmong_congr (Formula.opposite_alike h.2)]
    | _ => exact Iff.rfl
  -- a variable, a conjunction, a disjunction or an equivalence fits whatever its parts are
  all_goals cases rule <;> exact Iff.rfl

/-- The rules that ask for one pattern. -/
def patterned : List Rule :=
  [modusPonens, modusTollens, conjElimLeft, negElim, doubleNegElim]

/-- Such a rule goes through the members of a set, and draws something from those that fit. -/
lemma exists_draw {rule : Rule} (h : rule ∈ patterned) (axioms : List Formula) :
    ∃ draw : Formula → List Inference,
      rule.apply (.ofList axioms) none =
        (OrderedSet.ofList axioms : FormulaSet).toList.flatMap draw ∧
      ∀ f, draw f = [] ↔ ¬ Fits axioms rule f := by
  simp only [patterned, List.mem_cons, List.not_mem_nil, or_false] at h
  rcases h with rfl | rfl | rfl | rfl | rfl
  · refine ⟨_, rfl, fun f => ?_⟩
    cases f <;> simp [ponens, serves, Fits, FormulaSet.contains_ofList]
  · refine ⟨_, rfl, fun f => ?_⟩
    cases f <;> simp [tollens, serves, Fits, FormulaSet.contains_ofList]
  · refine ⟨_, rfl, fun f => ?_⟩
    cases f <;> simp [left, serves, Fits]
  · refine ⟨_, rfl, fun f => ?_⟩
    cases f <;> simp [contradiction, Fits, FormulaSet.contains_ofList]
  · refine ⟨_, rfl, fun f => ?_⟩
    cases f with
    | neg a => cases a <;> simp [strip, serves, Fits]
    | _ => simp [strip, Fits]

/-- A rule applies to the set of the axioms exactly if one of the axioms fits. -/
lemma applies_iff_exists_fits {rule : Rule} (h : rule ∈ patterned) (axioms : List Formula) :
    rule.applies (.ofList axioms) none = true ↔ ∃ f ∈ axioms, Fits axioms rule f := by
  obtain ⟨draw, hrule, hdraw⟩ := exists_draw h axioms
  rw [← OrderedSet.exists_ofList (respects_fits rule), applies, hrule, Bool.not_eq_true',
    ← Bool.not_eq_true, List.isEmpty_iff, List.flatMap_eq_nil_iff]
  simp only [hdraw, not_forall, not_not, exists_prop]

lemma builds_eq_nil_iff {rule : Rule} {part whole : Formula} :
    builds rule (.ofList axioms) part whole = [] ↔ part.isAmong axioms = false := by
  simp [builds, FormulaSet.contains_ofList]

end Rule

/-- A formula is a negation, or its opposite is its negation. -/
lemma Formula.neg_or_opposite (f : Formula) :
    (∃ p, f = .neg p) ∨ ((∀ p, f ≠ .neg p) ∧ f.opposite = .neg f) := by
  cases f <;> simp [opposite]

/-! ## What the potentials count -/

namespace Features

open Feature Rule

variable {axioms : List Formula} {goal : Formula}

lemma ponensPotential_pos :
    0 < ponensPotential axioms goal ↔ ∃ f ∈ axioms, Fits axioms modusPonens f := by
  simp only [ponensPotential, share_pos, total_map_pos]
  refine exists_congr fun f => and_congr_right fun _ => ?_
  cases f with
  | impl p q =>
      cases hp : p.isAmong axioms <;> cases hq : q.alike goal <;> simp [Fits, hp, hq]
  | _ => simp [Fits]

lemma conjElimPotential_pos :
    0 < conjElimPotential axioms ↔ ∃ f ∈ axioms, Fits axioms conjElimLeft f := by
  rw [conjElimPotential, share_pos, List.countP_pos_iff]
  refine exists_congr fun f => and_congr_right fun _ => ?_
  cases f <;> simp [Fits]

lemma doubleNegPotential_pos :
    0 < doubleNegPotential axioms ↔ ∃ f ∈ axioms, Fits axioms doubleNegElim f := by
  rw [doubleNegPotential, share_pos, List.countP_pos_iff]
  refine exists_congr fun f => and_congr_right fun _ => ?_
  cases f with
  | neg a => cases a <;> simp [Fits]
  | _ => simp [Fits]

/-- Of an axiom and its opposite one is a negation, and the other is what it negates. -/
lemma contradictionPotential_pos :
    0 < contradictionPotential axioms ↔ ∃ f ∈ axioms, Fits axioms negElim f := by
  rw [contradictionPotential, flag_pos, List.any_eq_true]
  constructor
  · rintro ⟨f, hf, hopposite⟩
    rcases f.neg_or_opposite with ⟨p, rfl⟩ | ⟨-, hneg⟩
    · exact ⟨.neg p, hf, hopposite⟩
    · rw [hneg, Formula.isAmong, List.any_eq_true] at hopposite
      obtain ⟨g, hg, halike⟩ := hopposite
      obtain ⟨p, rfl, hp⟩ := Formula.exists_of_alike_neg halike
      exact ⟨.neg p, hg, List.any_eq_true.2 ⟨f, hf, Formula.alike_symm hp⟩⟩
  · rintro ⟨f, hf, hfits⟩
    cases f with
    | neg p => exact ⟨.neg p, hf, hfits⟩
    | _ => cases hfits

lemma disjIntroPotential_pos :
    0 < disjIntroPotential axioms goal ↔
      disjIntroLeft.applies (.ofList axioms) (some goal) = true ∨
        disjIntroRight.applies (.ofList axioms) (some goal) = true := by
  cases goal with
  | disj p q =>
      simp [disjIntroPotential, flag_pos, applies, apply, builds_eq_nil_iff]
  | _ => simp [disjIntroPotential, applies, apply]

/-! ## Modus tollens -/

/-- The right side of an implication is no negation, and its negation is among the axioms. -/
def DeniesPlain (axioms : List Formula) : Prop :=
  ∃ p q, .impl p q ∈ axioms ∧ (∀ r, q ≠ .neg r) ∧ (Formula.neg q).isAmong axioms = true

/-- The right side of an implication is a negation, and what it negates is among the axioms. -/
def DeniesBare (axioms : List Formula) : Prop :=
  ∃ p r, .impl p (.neg r) ∈ axioms ∧ r.isAmong axioms = true

/-- The right side of an implication is a negation, and under one more it is among the axioms. -/
def DeniesDoubly (axioms : List Formula) : Prop :=
  ∃ p r, .impl p (.neg r) ∈ axioms ∧ (Formula.neg (.neg r)).isAmong axioms = true

/-- Where the right side is no negation, its opposite is its negation. -/
lemma modusTollens_fits_iff :
    (∃ f ∈ axioms, Fits axioms modusTollens f) ↔ DeniesPlain axioms ∨ DeniesBare axioms := by
  constructor
  · rintro ⟨f, hf, hfits⟩
    cases f with
    | impl p q =>
        rcases q.neg_or_opposite with ⟨r, rfl⟩ | ⟨hne, hneg⟩
        · exact Or.inr ⟨p, r, hf, hfits⟩
        · rw [Fits, hneg] at hfits
          exact Or.inl ⟨p, q, hf, hne, hfits⟩
    | _ => cases hfits
  · rintro (⟨p, q, hf, hne, hq⟩ | ⟨p, r, hf, hr⟩)
    · rcases q.neg_or_opposite with ⟨r, rfl⟩ | ⟨-, hneg⟩
      · exact absurd rfl (hne r)
      · exact ⟨.impl p q, hf, by rwa [Fits, hneg]⟩
    · exact ⟨.impl p (.neg r), hf, hr⟩

lemma tollensPotential_pos :
    0 < tollensPotential axioms goal ↔ DeniesPlain axioms ∨ DeniesDoubly axioms := by
  have hcount : 0 < tollensPotential axioms goal ↔
      ∃ p q, .impl p q ∈ axioms ∧ (Formula.neg q).isAmong axioms = true := by
    simp only [tollensPotential, share_pos, total_map_pos]
    constructor
    · rintro ⟨f, hf, hworth⟩
      cases f with
      | impl p q =>
          refine ⟨p, q, hf, ?_⟩
          by_contra hq
          simp [hq] at hworth
      | _ => simp at hworth
    · rintro ⟨p, q, hf, hq⟩
      refine ⟨.impl p q, hf, ?_⟩
      simp only [hq, if_true]
      split_ifs <;> omega
  rw [hcount]
  constructor
  · rintro ⟨p, q, hf, hq⟩
    rcases q.neg_or_opposite with ⟨r, rfl⟩ | ⟨hne, -⟩
    · exact Or.inr ⟨p, r, hf, hq⟩
    · exact Or.inl ⟨p, q, hf, hne, hq⟩
  · rintro (⟨p, q, hf, -, hq⟩ | ⟨p, r, hf, hr⟩)
    · exact ⟨p, q, hf, hq⟩
    · exact ⟨p, .neg r, hf, hr⟩

/-- **Potentials are positive exactly if their rules apply, but for one.**  The potential of modus
ponens, of taking a conjunction apart, of taking a double negation off and of a contradiction is
positive exactly if the rule applies to the axioms, that of introducing a disjunction exactly if one
of the two rules for it applies to them with the goal in view.  For modus tollens this is so exactly
if the axioms deny a right side that is no negation, or if they deny one that is by what it negates
exactly if they deny one by a double negation. -/
theorem potentials_foretell_rules (axioms : List Formula) (goal : Formula) :
    let kb : FormulaSet := .ofList axioms
    let features := ofProblem axioms goal
    (Positive features "mp_potential" ↔ modusPonens.applies kb none = true) ∧
    (Positive features "and_elim_potential" ↔ conjElimLeft.applies kb none = true) ∧
    (Positive features "double_neg_potential" ↔ doubleNegElim.applies kb none = true) ∧
    (Positive features "contradiction_potential" ↔ negElim.applies kb none = true) ∧
    (Positive features "or_intro_potential" ↔
      disjIntroLeft.applies kb (some goal) = true ∨
        disjIntroRight.applies kb (some goal) = true) ∧
    ((Positive features "mt_potential" ↔ modusTollens.applies kb none = true) ↔
      DeniesPlain axioms ∨ (DeniesDoubly axioms ↔ DeniesBare axioms)) := by
  intro kb features
  have happlies : ∀ {rule : Rule}, rule ∈ patterned →
      (rule.applies kb none = true ↔ ∃ f ∈ axioms, Fits axioms rule f) :=
    fun h => applies_iff_exists_fits h axioms
  refine ⟨?_, ?_, ?_, ?_, ?_, ?_⟩
  · rw [positive_iff rfl, ponensPotential_pos, happlies (by decide)]
  · rw [positive_iff rfl, conjElimPotential_pos, happlies (by decide)]
  · rw [positive_iff rfl, doubleNegPotential_pos, happlies (by decide)]
  · rw [positive_iff rfl, contradictionPotential_pos, happlies (by decide)]
  · rw [positive_iff rfl, disjIntroPotential_pos]
  · rw [positive_iff rfl, tollensPotential_pos, happlies (by decide), modusTollens_fits_iff]
    tauto

/-- `Q` denies the right side of `P → ¬Q`, and modus tollens applies, but the potential is zero.
`¬¬Q` is not what the rule asks for, but the potential is positive. -/
theorem tollensPotential_wrong_both_ways :
    let arrow : Formula := .impl (.var "P") (.neg (.var "Q"))
    let bare : List Formula := [arrow, .var "Q"]
    let doubly : List Formula := [arrow, .neg (.neg (.var "Q"))]
    let goal : Formula := .neg (.var "P")
    (modusTollens.applies (.ofList bare) none = true ∧
      ¬ Positive (ofProblem bare goal) "mt_potential") ∧
    (modusTollens.applies (.ofList doubly) none = false ∧
      Positive (ofProblem doubly goal) "mt_potential") := by
  intro arrow bare doubly goal
  refine ⟨⟨rfl, ?_⟩, rfl, ?_⟩
  · rw [positive_iff rfl, tollensPotential, share_pos]
    decide
  · rw [positive_iff rfl, tollensPotential, share_pos]
    decide

end Features

end AnnealProver
