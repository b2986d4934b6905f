import Mathlib.Data.Finite.Prod
import Mathlib.Data.Set.Finite.Lemmas
import AnnealProver.Proofs.GroundStates

/-!
# Taking a step never pays

The energy of a problem with step bits asks for the axioms, for the goal and for the ties, and all
that it says of steps is what they cost: two steps at one time, a step while the goal is not true,
and every step for the length of the proof.  No part of it grows when a step is **not** taken.

So the **idle** point, which differs from a given one in that no step is taken, costs less by at
least the price of the steps that were (`cost_idle_add_le`).  Where the energy is least, no step is
taken, and the proof that is read off is empty, whatever the axioms and the goal are.

All this rests on the step bits being none of the bits of formulas.  The latter are exactly the bits
of the encoder: `Encoder.Closed` says that no tie and no encoded formula is about any other.
-/

namespace AnnealProver

/-! ## The bits that an encoder speaks of -/

lemma NameSet.mem_insert_iff {s : NameSet} {x name : String} :
    x ∈ (s.insert name).toList ↔ x ∈ s.toList ∨ x = name := by
  have hall : x ∈ (s.insertAll [name]).toList ↔ x ∈ s.toList ∨ x ∈ [name] :=
    OrderedSet.mem_insertAll_iff (by simp)
  rwa [List.mem_singleton] at hall

namespace Encoder

variable {e e' : Encoder} {F : Set Formula} {f : Formula} {x : Encoded} {t : Tie}

/-- Formulas and ties use bits of the encoder only. -/
structure Closed (e : Encoder) : Prop where
  found : ∀ f x, e.formulas.get? f = some x → x.name ∈ e.bits.toList
  tied : ∀ t ∈ e.ties, ∀ n ∈ t.name :: t.operands, n ∈ e.bits.toList

lemma Adds.mem_bits_iff (h : Adds e f x e') {n : String} :
    n ∈ e'.bits.toList ↔ n ∈ e.bits.toList ∨ n = x.name := by
  rw [h.bits, NameSet.mem_insert_iff]

lemma Closed.adds (h : e.Closed) (hadds : Adds e f x e')
    (hties : ∀ t ∈ e'.ties, t ∉ e.ties → ∀ n ∈ t.name :: t.operands, n ∈ e'.bits.toList) :
    e'.Closed where
  found := by
    rw [hadds.formulas]
    refine FormulaTable.forall_get?_insert hadds.new (fun _ _ hname => hname) (fun g y hy => ?_) ?_
    · exact hadds.mem_bits_iff.2 (Or.inl (h.found g y hy))
    · exact hadds.mem_bits_iff.2 (Or.inr rfl)
  tied := by
    intro t ht n hn
    by_cases hold : t ∈ e.ties
    · exact hadds.mem_bits_iff.2 (Or.inl (h.tied t hold n hn))
    · exact hties t ht hold n hn

lemma NewTie.operands_subset (ht : e.NewTie f t) (h : e.Closed) : t.operands ⊆ e.bits.toList := by
  cases ht with
  | neg ha => simpa [Tie.operands] using h.found _ _ ha
  | join ha hb => simpa [Tie.operands] using ⟨h.found _ _ ha, h.found _ _ hb⟩

lemma Step.closed (h : Step F e e') (he : e.Closed) : e'.Closed := by
  cases h with
  | @symbol y hy hnew =>
      refine he.adds (addSymbol_adds hnew) fun t ht hother => ?_
      rw [addSymbol_ties] at ht
      exact absurd ht hother
  | @tie f t hf hnew ht =>
      have hadds := withTie_adds (t := t) hnew
      refine he.adds hadds fun t' ht' hother n hn => ?_
      have heq : t' = t := by simpa [hother] using ht'
      rw [heq, List.mem_cons] at hn
      rcases hn with rfl | hn
      · exact hadds.mem_bits_iff.2 (Or.inr rfl)
      · exact hadds.mem_bits_iff.2 (Or.inl (ht.operands_subset he hn))

lemma Run.closed (h : Run F {} e) : e.Closed := by
  induction h with
  | refl => exact ⟨by simp, by simp⟩
  | tail _ step ih => exact step.closed ih

end Encoder

/-! ## What steps cost -/

namespace Energy

lemma finite_range_both {K : Type} {f g : Valuation → K} (op : K → K → K)
    (hf : (Set.range f).Finite) (hg : (Set.range g).Finite) :
    (Set.range fun bits => op (f bits) (g bits)).Finite := by
  refine (hf.image2 op hg).subset ?_
  rintro _ ⟨bits, rfl⟩
  exact ⟨f bits, ⟨bits, rfl⟩, g bits, ⟨bits, rfl⟩, rfl⟩

variable {K : Type} [Field K]

/-- At all points together an energy has finitely many costs. -/
lemma finite_range_cost (e : Energy K) : (Set.range fun bits => e.cost bits).Finite := by
  induction e with
  | weight c => exact Set.finite_range_const
  | nat n => exact Set.finite_range_const
  | bit name =>
      refine (Set.toFinite {0, 1}).subset ?_
      rintro _ ⟨bits, rfl⟩
      cases h : bits name <;> simp [cost, value, h]
  | add a b iha ihb => exact finite_range_both (· + ·) iha ihb
  | sub a b iha ihb => exact finite_range_both (· - ·) iha ihb
  | mul a b iha ihb => exact finite_range_both (· * ·) iha ihb
  | div a b iha ihb => exact finite_range_both (· / ·) iha ihb

/-- Some point costs least. -/
lemma exists_cost_le [LinearOrder K] (e : Energy K) :
    ∃ bits, ∀ bits', e.cost bits ≤ e.cost bits' := by
  obtain ⟨_, ⟨bits, rfl⟩, hleast⟩ :=
    Set.exists_min_image _ id e.finite_range_cost ⟨_, fun _ => false, rfl⟩
  exact ⟨bits, fun bits' => hleast _ ⟨bits', rfl⟩⟩

end Energy

/-- Settings and weights with which no step is rewarded and every step has its price. -/
structure StepSettings.Allows {K : Type} [Field K] [LinearOrder K] (s : StepSettings K)
    (weights : NameTable K) : Prop where
  step : 0 ≤ s.step
  rule : 0 ≤ s.rule
  length : 0 < s.length
  weights : ∀ x ∈ weights.entries, x.2 ≤ 2

namespace StepProblem

variable {K : Type} [Field K] {p : StepProblem} {s : StepSettings K} {weights : NameTable K}
  {bits : Valuation} {steps : List StepBit}

/-- The problem with other names for its steps. -/
def named (name : StepBit → String) (p : StepProblem) : StepProblem :=
  { p with times := p.times.map (·.map fun b => { b with name := name b }) }

lemma named_name : p.named (·.name) = p := by
  simp [named]

/-- The point at which no step is taken and all else is the same. -/
def idle (p : StepProblem) (bits : Valuation) : Valuation :=
  fun n => if n ∈ p.steps.map (·.name) then false else bits n

/-- What the axioms, the goal and the ties cost. -/
def formulaCost (p : StepProblem) (s : StepSettings K) (bits : Valuation) : K :=
  (p.axiomBits.map fun b => s.axioms * (Energy.asksFor b.name : Energy K).cost bits).sum +
    s.axioms * (Energy.asksFor p.goalBit.name : Energy K).cost bits +
    s.structural * (p.encoder.energy (1 : K)).cost bits

/-- What the steps cost besides the length of the proof. -/
def stepCost (p : StepProblem) (s : StepSettings K) (weights : NameTable K) (bits : Valuation) :
    K :=
  ((p.times.filter fun steps => 1 < steps.length).map fun steps =>
    s.step * (crowding steps : Energy K).cost bits).sum +
  (p.steps.map fun b => s.rule * ((2 : ℕ) - weights.getD b.rule 1) *
    (Energy.bit b.name : Energy K).cost bits *
    (Energy.asksFor p.goalBit.name : Energy K).cost bits).sum

lemma length_decode (steps : List StepBit) (bits : Valuation) :
    (decode steps bits).length = steps.countP fun b => bits b.name := by
  rw [decode, List.length_mergeSort, List.countP_eq_length_filter]

lemma decode_eq_nil_iff : decode steps bits = [] ↔ ∀ b ∈ steps, bits b.name = false := by
  rw [← List.length_eq_zero_iff, length_decode, List.countP_eq_zero]
  simp

/-- Bits add up to the number of those that are one. -/
lemma sum_cost_bit : (steps.map fun b => (Energy.bit b.name : Energy K).cost bits).sum =
    ((decode steps bits).length : K) := by
  rw [length_decode, ← Energy.sum_map_ite_eq_countP]
  rfl

/-- Of every two steps taken at one time one is too many. -/
lemma cost_crowding : (crowding steps : Energy K).cost bits =
    ((decode steps bits).length : K) * ((decode steps bits).length - 1) / 2 := by
  simp [crowding, Energy.cost_sum, Function.comp_def, ← sum_cost_bit]

lemma cost_energy : (p.energy s weights).cost bits =
    p.formulaCost s bits + p.stepCost s weights bits + s.length * (decode p.steps bits).length := by
  rw [← sum_cost_bit, ← List.sum_map_mul_left]
  simp [energy, Energy.cost_foldl_add, formulaCost, stepCost, add_assoc]

/-! ## Idling -/

/-- The formulas of the problem have bits of the encoder. -/
structure Closed (p : StepProblem) : Prop where
  encoder : p.encoder.Closed
  axioms : ∀ x ∈ p.axiomBits, x.name ∈ p.encoder.bits.toList
  goal : p.goalBit.name ∈ p.encoder.bits.toList

/-- No step has the name of a bit of a formula. -/
def Apart (p : StepProblem) : Prop :=
  ∀ b ∈ p.steps, b.name ∉ p.encoder.bits.toList

instance (p : StepProblem) : Decidable p.Apart :=
  inferInstanceAs (Decidable (∀ b ∈ p.steps, b.name ∉ p.encoder.bits.toList))

lemma Closed.named (h : p.Closed) (name : StepBit → String) : (p.named name).Closed :=
  ⟨h.encoder, h.axioms, h.goal⟩

lemma ofFormulas_closed (maxSteps : Int) (axioms : List Formula) (goal : Formula) :
    (ofFormulas maxSteps axioms goal).Closed := by
  let e := (Encoder.encodeAll {} axioms).2
  let between := relevantFormulas axioms goal
  have hgoal := Encoder.encode_encodes e goal
  have hlate : Encoder.Run Set.univ (e.encode goal).2 ((e.encode goal).2.encodeAll between).2 :=
    (Encoder.encodeAll_run _ between).1.mono (Set.subset_univ _)
  have hrun : Encoder.Run Set.univ e ((e.encode goal).2.encodeAll between).2 :=
    (hgoal.run.mono (Set.subset_univ _)).trans hlate
  have hclosed := Encoder.Run.closed
    (((Encoder.encodeAll_run {} axioms).1.mono (Set.subset_univ _)).trans hrun)
  refine ⟨hclosed, fun x hx => ?_, hclosed.found goal _ (hlate.get?_of_some hgoal.found)⟩
  obtain ⟨f, -, hf⟩ := Encoder.exists_of_mem_encodeAll hx
  exact hclosed.found f x (hrun.get?_of_some hf)

lemma idle_step {b : StepBit} (hb : b ∈ p.steps) : p.idle bits b.name = false :=
  if_pos (List.mem_map_of_mem hb)

lemma idle_of_apart (hapart : p.Apart) {n : String} (hn : n ∈ p.encoder.bits.toList) :
    p.idle bits n = bits n := by
  refine if_neg fun hstep => ?_
  obtain ⟨b, hb, rfl⟩ := List.mem_map.1 hstep
  exact hapart b hb hn

lemma decode_idle (h : steps ⊆ p.steps) : decode steps (p.idle bits) = [] :=
  decode_eq_nil_iff.2 fun _ hb => idle_step (h hb)

lemma stepCost_idle : p.stepCost s weights (p.idle bits) = 0 := by
  have hcrowd : ∀ steps ∈ p.times, (crowding steps : Energy K).cost (p.idle bits) = 0 := by
    intro steps hsteps
    rw [cost_crowding, decode_idle fun b hb => List.mem_flatten_of_mem hsteps hb]
    simp
  have hbit : ∀ b ∈ p.steps, (Energy.bit b.name : Energy K).cost (p.idle bits) = 0 := by
    intro b hb
    simp [idle_step hb]
  refine (congrArg₂ (· + ·) (List.sum_eq_zero ?_) (List.sum_eq_zero ?_)).trans (add_zero 0)
  · rintro _ hcost
    obtain ⟨steps, hsteps, rfl⟩ := List.mem_map.1 hcost
    rw [hcrowd steps (List.mem_filter.1 hsteps).1, mul_zero]
  · rintro _ hcost
    obtain ⟨b, hb, rfl⟩ := List.mem_map.1 hcost
    rw [hbit b hb, mul_zero, zero_mul]

/-- Formulas cost the same whether steps are taken or not. -/
lemma formulaCost_idle (hclosed : p.Closed) (hapart : p.Apart) :
    p.formulaCost s (p.idle bits) = p.formulaCost s bits := by
  have hasks : ∀ {n}, n ∈ p.encoder.bits.toList →
      (Energy.asksFor n : Energy K).cost (p.idle bits) =
        (Energy.asksFor n : Energy K).cost bits := by
    intro n hn
    rw [Energy.cost_asksFor, Energy.cost_asksFor, idle_of_apart hapart hn]
  have hties : ∀ t ∈ p.encoder.ties,
      (t.energy : Energy K).cost (p.idle bits) = (t.energy : Energy K).cost bits :=
    fun t ht => Tie.cost_congr fun n hn => idle_of_apart hapart (hclosed.encoder.tied t ht n hn)
  simp only [formulaCost, Encoder.energy, Energy.cost_weightedSum, Energy.cost_weight, List.map_map,
    Function.comp_def, hasks hclosed.goal, List.map_congr_left hties]
  rw [List.map_congr_left fun x hx => by rw [hasks (hclosed.axioms x hx)]]

variable [LinearOrder K] [IsStrictOrderedRing K]

/-- Nothing is gained by a step. -/
lemma stepCost_nonneg (h : s.Allows weights) : 0 ≤ p.stepCost s weights bits := by
  have hcrowd : ∀ steps : List StepBit, 0 ≤ (crowding steps : Energy K).cost bits := by
    intro steps
    rw [cost_crowding]
    -- none taken, or at least one
    rcases Nat.eq_zero_or_pos (decode steps bits).length with hnone | hsome
    · simp [hnone]
    · have hone : (1 : K) ≤ (decode steps bits).length := by exact_mod_cast hsome
      have hrest := sub_nonneg.2 hone
      positivity
  refine add_nonneg (Energy.sum_map_mul_nonneg h.step fun steps _ => hcrowd steps)
    (Energy.sum_map_nonneg fun b _ => mul_nonneg (mul_nonneg (mul_nonneg h.rule ?_) ?_) ?_)
  · exact sub_nonneg.2 (NameTable.getD_le_two h.weights b.rule)
  · rw [Energy.cost_bit]
    split_ifs <;> norm_num
  · exact Energy.cost_asksFor_nonneg _

/-- Idling saves at least the price of the steps that were taken. -/
lemma cost_idle_add_le (hclosed : p.Closed) (hapart : p.Apart) (h : s.Allows weights) :
    (p.energy s weights).cost (p.idle bits) + s.length * (decode p.steps bits).length ≤
      (p.energy s weights).cost bits := by
  have hsteps : 0 ≤ p.stepCost s weights bits := stepCost_nonneg h
  rw [cost_energy, cost_energy, formulaCost_idle hclosed hapart, stepCost_idle,
    decode_idle (List.Subset.refl _)]
  simp only [List.length_nil, Nat.cast_zero, mul_zero, add_zero]
  linarith

/-- **Taking a step never pays.**  For every problem, whatever its steps are named as long as no
formula has a bit of that name, the idle point saves at least the price of the steps that were
taken.  So it never costs more, and costs less if there were any.  The energy is least at some
point, and at every such point no step is read off. -/
theorem idle_costs_least (maxSteps : Int) (axioms : List Formula) (goal : Formula)
    (name : StepBit → String) (s : StepSettings K) (weights : NameTable K) (h : s.Allows weights)
    (hapart : ((ofFormulas maxSteps axioms goal).named name).Apart) :
    let p := (ofFormulas maxSteps axioms goal).named name
    let cost := fun bits => (p.energy s weights).cost bits
    (∀ bits, cost (p.idle bits) + s.length * (decode p.steps bits).length ≤ cost bits) ∧
    (∀ bits, cost (p.idle bits) ≤ cost bits) ∧
    (∀ bits, (∃ b ∈ p.steps, bits b.name = true) → cost (p.idle bits) < cost bits) ∧
    (∃ bits, ∀ bits', cost bits ≤ cost bits') ∧
    ∀ bits, (∀ bits', cost bits ≤ cost bits') → decode p.steps bits = [] := by
  intro p cost
  have hsaves : ∀ bits, cost (p.idle bits) + s.length * (decode p.steps bits).length ≤ cost bits :=
    fun bits => cost_idle_add_le ((ofFormulas_closed maxSteps axioms goal).named name) hapart h
  have hless : ∀ bits, decode p.steps bits ≠ [] → cost (p.idle bits) < cost bits := by
    intro bits htaken
    have hprice : 0 < s.length * (decode p.steps bits).length :=
      mul_pos h.length (by exact_mod_cast List.length_pos_iff.2 htaken)
    linarith [hsaves bits]
  refine ⟨hsaves, fun bits => ?_, fun bits ⟨b, hb, htaken⟩ => hless bits fun hnone => ?_,
    Energy.exists_cost_le _, fun bits hleast => ?_⟩
  · have hprice : 0 ≤ s.length * (decode p.steps bits).length :=
      mul_nonneg h.length.le (Nat.cast_nonneg _)
    linarith [hsaves bits]
  · simp [decode_eq_nil_iff.1 hnone b hb] at htaken
  · by_contra htaken
    exact absurd (hless bits htaken) (hleast _).not_gt

/-- A proof of one step is at hand, by a rule that has the greatest weight allowed, and still the
step is not taken. -/
theorem idle_costs_least_ponens :
    let p := ofFormulas 1 [.var "P", .impl (.var "P") (.var "Q")] (.var "Q")
    let s : StepSettings ℚ := ⟨1, 100, 50, 20, 10, 1⟩
    let weights : NameTable ℚ := (∅ : NameTable ℚ).insert "modus_ponens" 2
    s.Allows weights ∧ p.Apart ∧
      ∀ bits, (∀ bits', (p.energy s weights).cost bits ≤ (p.energy s weights).cost bits') →
        decode p.steps bits = [] := by
  intro p s weights
  have hallows : s.Allows weights :=
    ⟨by norm_num [s], by norm_num [s], by norm_num [s], by decide⟩
  have hapart : p.Apart := by decide
  have hleast := idle_costs_least 1 [.var "P", .impl (.var "P") (.var "Q")] (.var "Q") (·.name) s
    weights hallows (by rwa [named_name])
  rw [named_name] at hleast
  exact ⟨hallows, hapart, hleast.2.2.2.2⟩

end StepProblem

end AnnealProver
