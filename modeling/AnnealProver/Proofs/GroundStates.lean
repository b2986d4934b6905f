import AnnealProver.Energy.StepProblem
import AnnealProver.Proofs.Encoding

/-!
# The ground states of a proof problem

The energy of a problem asks that axioms and goal are true, that the ties hold, and that the hints
do.  Its **ground states**, the points of no cost, are exactly what a joint model of the axioms and
the goal looks like in bits.

That a point of no cost gives a model needs the first two parts only, since by
`Run.kept_iff_truthful` the ties leave the bits no choice.  Conversely a model extends to a point
at which all bits are right, those included that only the hints asked for, and at such a point the
hints cost nothing: **every bit that a hint needs belongs to a formula that the axioms entail**
(`Hint.ofAxioms_found`), so it is one whatever the hint's control is.  The ties of late bits are
not part of the energy, and nothing depends on how the controls are named.
-/

namespace AnnealProver

/-! ## Formulas over the symbols of others -/

namespace Formula

/-- The formulas that are written with symbols of the given ones. -/
def language (fs : List Formula) : Set Formula :=
  {g | ∀ y ∈ g.names, ∃ f ∈ fs, y ∈ f.names}

variable {fs gs : List Formula}

lemma mem_language_of_mem {f : Formula} (hf : f ∈ fs) : f ∈ language fs :=
  fun _ hy => ⟨f, hf, hy⟩

lemma partsOf_subset_language (h : ∀ g ∈ gs, g ∈ language fs) : partsOf gs ⊆ language fs := by
  rintro k ⟨g, hg, hk⟩ y hy
  exact h g hg y (mem_names_of_mem_subformulas hk hy)

lemma var_mem_language {y : String} : .var y ∈ language fs ↔ ∃ f ∈ fs, y ∈ f.names := by
  simp [language, names]

lemma mem_language_left {c : Connective} {p q : Formula} (h : c.apply p q ∈ language fs) :
    p ∈ language fs :=
  fun y hy => h y (by simp [hy])

lemma mem_language_right {c : Connective} {p q : Formula} (h : c.apply p q ∈ language fs) :
    q ∈ language fs :=
  fun y hy => h y (by simp [hy])

lemma mem_language_opposite {p : Formula} (h : p ∈ language fs) : p.opposite ∈ language fs := by
  intro y hy
  rw [names_opposite] at hy
  exact h y hy

end Formula

open Formula (language)

/-! ## What the axioms entail -/

namespace Entails

variable {axioms : List Formula} {f p q : Formula}

lemma of_mem (h : f ∈ axioms) : Entails axioms f :=
  fun _ hv => hv f h

/-- A formula among the axioms, up to likeness, is entailed. -/
lemma of_isAmong (h : f.isAmong axioms = true) : Entails axioms f := by
  intro v hv
  obtain ⟨g, hg, hgf⟩ := List.any_eq_true.1 h
  rw [← Formula.eval_eq_of_alike hgf]
  exact hv g hg

lemma ponens (hpq : Entails axioms (.impl p q)) (hp : Entails axioms p) : Entails axioms q := by
  intro v hv
  have h := hpq v hv
  rwa [Formula.eval, hp v hv] at h

lemma tollens (hpq : Entails axioms (.impl p q)) (hq : Entails axioms q.opposite) :
    Entails axioms p.opposite := by
  intro v hv
  have h := hpq v hv
  have hfalse := hq v hv
  rw [Formula.eval_opposite, Bool.not_eq_true'] at hfalse
  rwa [Formula.eval, hfalse, Bool.or_false, ← Formula.eval_opposite] at h

lemma both (h : Entails axioms (.conj p q)) : Entails axioms p ∧ Entails axioms q := by
  constructor <;> intro v hv <;> have hpq := h v hv <;>
    rw [Formula.eval, Bool.and_eq_true] at hpq
  · exact hpq.1
  · exact hpq.2

end Entails

/-! ## Hints -/

namespace Hint

variable {axioms fs gs : List Formula} {e e' : Encoder} {h : Hint}

/-- Every bit that the hint needs belongs to a formula that the axioms entail. -/
def Backed (axioms : List Formula) (e : Encoder) (h : Hint) : Prop :=
  ∀ n ∈ h.needs, ∃ g x, e.formulas.get? g = some x ∧ x.name = n ∧ Entails axioms g

/-- What a search for hints leaves behind. -/
structure Found (axioms fs : List Formula) (e : Encoder) (result : List Hint × Encoder) :
    Prop where
  run : e.Run (language fs) result.2
  backed : ∀ h ∈ result.1, h.Backed axioms result.2

lemma Backed.of_run (hb : h.Backed axioms e) (run : Encoder.Run (language fs) e e') :
    h.Backed axioms e' := by
  intro n hn
  obtain ⟨g, x, hx, hname, hg⟩ := hb n hn
  exact ⟨g, x, run.get?_of_some hx, hname, hg⟩

lemma found_nothing : Found axioms fs e ([], e) :=
  ⟨.refl, by simp⟩

lemma Found.append {r s : List Hint × Encoder} (hr : Found axioms fs e r)
    (hs : Found axioms fs r.2 s) : Found axioms fs e (r.1 ++ s.1, s.2) := by
  refine ⟨hr.run.trans hs.run, fun h hh => ?_⟩
  rcases List.mem_append.1 hh with hh | hh
  · exact (hr.backed h hh).of_run hs.run
  · exact hs.backed h hh

/-- A hint on the bits of formulas that have just been encoded. -/
lemma found_encodeAll (hlanguage : ∀ g ∈ gs, g ∈ language fs) (hgs : ∀ g ∈ gs, Entails axioms g)
    (hneeds : h.needs ⊆ (e.encodeAll gs).1.map (·.name)) :
    Found axioms fs e ([h], (e.encodeAll gs).2) := by
  refine ⟨(e.encodeAll_run gs).1.mono (Formula.partsOf_subset_language hlanguage), ?_⟩
  intro h' hh' n hn
  obtain rfl := List.mem_singleton.1 hh'
  obtain ⟨x, hx, rfl⟩ := List.mem_map.1 (hneeds hn)
  obtain ⟨g, hg, hgx⟩ := Encoder.exists_of_mem_encodeAll hx
  exact ⟨g, x, hgx, rfl, hgs g hg⟩

/-- A search that, seeking at an axiom, finds at most one hint and that one backed. -/
def Seeks (axioms fs : List Formula) (seek : Encoder → Formula → Option Hint × Encoder) : Prop :=
  ∀ e, ∀ f ∈ axioms, f ∈ language fs → Found axioms fs e ((seek e f).1.toList, (seek e f).2)

lemma ponens?_seeks : Seeks axioms fs (ponens? axioms) := by
  intro e f hf hlanguage
  cases f with
  | impl p q =>
      by_cases hp : p.isAmong axioms = true
      · have hsymbols : ∀ g ∈ [p, .impl p q, q], g ∈ language fs := by
          have hleft := Formula.mem_language_left (c := .impl) hlanguage
          have hright := Formula.mem_language_right (c := .impl) hlanguage
          simp [hlanguage, hleft, hright]
        have hentailed : ∀ g ∈ [p, .impl p q, q], Entails axioms g := by
          have hwhole := Entails.of_mem hf
          have hleft := Entails.of_isAmong hp
          simp [hwhole, hleft, hwhole.ponens hleft]
        simp only [ponens?, hp, if_true]
        exact found_encodeAll hsymbols hentailed (List.Subset.refl _)
      · simp only [ponens?, hp]
        exact found_nothing
  | _ => exact found_nothing

lemma tollens?_seeks : Seeks axioms fs (tollens? axioms) := by
  intro e f hf hlanguage
  cases f with
  | impl p q =>
      by_cases hq : q.opposite.isAmong axioms = true
      · have hsymbols : ∀ g ∈ [.impl p q, q.opposite, p.opposite], g ∈ language fs := by
          have hleft := Formula.mem_language_left (c := .impl) hlanguage
          have hright := Formula.mem_language_right (c := .impl) hlanguage
          simp [hlanguage, Formula.mem_language_opposite hleft,
            Formula.mem_language_opposite hright]
        have hentailed : ∀ g ∈ [.impl p q, q.opposite, p.opposite], Entails axioms g := by
          have hwhole := Entails.of_mem hf
          have hright := Entails.of_isAmong hq
          simp [hwhole, hright, hwhole.tollens hright]
        simp only [tollens?, hq, if_true]
        exact found_encodeAll hsymbols hentailed (List.Subset.refl _)
      · simp only [tollens?, hq]
        exact found_nothing
  | _ => exact found_nothing

lemma parts?_seeks : Seeks axioms fs (fun e => parts? e) := by
  intro e f hf hlanguage
  cases f with
  | conj p q =>
      have hsymbols : ∀ g ∈ [.conj p q, p, q], g ∈ language fs := by
        have hleft := Formula.mem_language_left (c := .conj) hlanguage
        have hright := Formula.mem_language_right (c := .conj) hlanguage
        simp [hlanguage, hleft, hright]
      have hentailed : ∀ g ∈ [.conj p q, p, q], Entails axioms g := by
        have hwhole := Entails.of_mem hf
        simp [hwhole, hwhole.both]
      -- the first of the three bits is the control, which the hint does not need
      exact found_encodeAll hsymbols hentailed (List.subset_cons_self _ _)
  | _ => exact found_nothing

lemma gather_found {seek : Encoder → Formula → Option Hint × Encoder}
    (hseek : Seeks axioms fs seek) (hlanguage : ∀ f ∈ axioms, f ∈ language fs) (e : Encoder)
    (hgs : gs ⊆ axioms) : Found axioms fs e (gather seek e gs) := by
  induction gs generalizing e with
  | nil => exact found_nothing
  | cons g gs ih =>
      have hg := hgs List.mem_cons_self
      have htail := ih (seek e g).2 fun f hf => hgs (List.mem_cons_of_mem _ hf)
      exact (hseek e g hg (hlanguage g hg)).append htail

/-- **Every bit that a hint needs belongs to a formula that the axioms entail.** -/
theorem ofAxioms_found (hlanguage : ∀ f ∈ axioms, f ∈ language fs) (e : Encoder) :
    Found axioms fs e (ofAxioms axioms e) := by
  have hgather : ∀ {seek}, Seeks axioms fs seek → ∀ e, Found axioms fs e (gather seek e axioms) :=
    fun hseek e => gather_found hseek hlanguage e (List.Subset.refl axioms)
  exact ((hgather ponens?_seeks e).append (hgather tollens?_seeks _)).append
    (hgather parts?_seeks _)

/-! ### What hints cost -/

variable {K : Type} [Field K] {bits : Valuation}

lemma cost_energy : (h.energy : Energy K).cost bits =
    (h.needs.map fun n => (Energy.bit h.control : Energy K).cost bits *
      (Energy.asksFor n : Energy K).cost bits).sum := by
  rw [energy, Energy.cost_sum, List.map_map]
  rfl

lemma cost_eq_zero (h1 : ∀ n ∈ h.needs, bits n = true) : (h.energy : Energy K).cost bits = 0 := by
  rw [cost_energy]
  refine List.sum_eq_zero fun c hc => ?_
  obtain ⟨n, hn, rfl⟩ := List.mem_map.1 hc
  rw [Energy.cost_asksFor, h1 n hn, if_pos rfl, mul_zero]

lemma cost_nonneg [LinearOrder K] [IsStrictOrderedRing K] :
    0 ≤ (h.energy : Energy K).cost bits := by
  rw [cost_energy]
  refine Energy.sum_map_nonneg fun n _ => mul_nonneg ?_ (Energy.cost_asksFor_nonneg n)
  rw [Energy.cost_bit]
  split_ifs <;> norm_num

end Hint

/-! ## Ground states -/

variable {K : Type} [Field K] [LinearOrder K]

/-- The energy is never negative, its points of no cost make the formulas true, and there are such
points exactly when the formulas can be true together.  The lead is empty, so the bit of a symbol is
the symbol. -/
structure Energy.Grounds (h : Energy K) (fs : List Formula) : Prop where
  nonneg : ∀ bits, 0 ≤ h.cost bits
  model : ∀ bits, h.cost bits = 0 → ∀ f ∈ fs, f.eval bits = true
  exists_iff : (∃ bits, h.cost bits = 0) ↔ ∃ v : Valuation, ∀ f ∈ fs, f.eval v = true

namespace Encoder

variable {e : Encoder} {fs gs : List Formula} {bits : Valuation}

lemma encodeAll_append (e : Encoder) (fs gs : List Formula) :
    e.encodeAll (fs ++ gs) = ((e.encodeAll fs).1 ++ ((e.encodeAll fs).2.encodeAll gs).1,
      ((e.encodeAll fs).2.encodeAll gs).2) := by
  induction fs generalizing e with
  | nil => rfl
  | cons f fs ih => simp only [List.cons_append, encodeAll, ih]

lemma after_run_language {lead : String} : Run (language fs) { lead } (after lead fs) :=
  after_run.mono (Formula.partsOf_subset_language fun _ => Formula.mem_language_of_mem)

lemma valuation_eq (h : e.lead = "") : e.valuation bits = bits := by
  funext y
  rw [valuation, h, String.empty_append]

lemma Apart.ne_of_mem_language (h : e.Apart fs) (y : String) (hy : .var y ∈ language fs) (t : Tie)
    (ht : t ∈ e.ties) : t.name ≠ e.lead ++ y := by
  obtain ⟨f, hf, hy⟩ := Formula.var_mem_language.1 hy
  exact h f hf y hy t ht

/-- Where all bits are right, the bits of the formulas are ones exactly when the formulas are true.
-/
lemma forall_bits_iff (h : (after "" fs).Truthful bits) :
    (∀ x ∈ (encodeAll {} fs).1, bits x.name = true) ↔ ∀ f ∈ fs, f.eval bits = true := by
  have hright : ∀ f x, (after "" fs).formulas.get? f = some x → bits x.name = f.eval bits := by
    intro f x hx
    rw [h f x hx, valuation_eq after_lead]
  constructor
  · intro hbits f hf
    obtain ⟨x, hx, hfx⟩ := exists_mem_encodeAll hf
    rw [← hright f x hfx]
    exact hbits x hx
  · intro htrue x hx
    obtain ⟨f, hf, hfx⟩ := exists_of_mem_encodeAll hx
    rw [hright f x hfx]
    exact htrue f hf

/-- How an energy comes to have the models of the formulas as ground states: a point of no cost has
ones at the formulas and keeps their ties, and a point at which the formulas are true and all bits
are right, those of a later run included, costs nothing. -/
lemma grounds_of_run {h : Energy K} (run : Run (language fs) (after "" fs) e) (hapart : e.Apart fs)
    (hnonneg : ∀ bits, 0 ≤ h.cost bits)
    (hdemands : ∀ bits, h.cost bits = 0 →
      (∀ x ∈ (encodeAll {} fs).1, bits x.name = true) ∧ (after "" fs).Kept bits)
    (hfree : ∀ bits, e.Truthful bits → (after "" fs).Truthful bits →
      (∀ f ∈ fs, f.eval bits = true) → h.cost bits = 0) : h.Grounds fs := by
  have hmodel : ∀ bits, h.cost bits = 0 → ∀ f ∈ fs, f.eval bits = true := by
    intro bits hzero
    obtain ⟨hbits, hkept⟩ := hdemands bits hzero
    exact (forall_bits_iff (after_run.kept_iff_truthful.1 hkept)).1 hbits
  refine ⟨hnonneg, hmodel, fun ⟨bits, hzero⟩ => ⟨bits, hmodel bits hzero⟩, fun ⟨v, hv⟩ => ?_⟩
  have hlead : e.lead = "" := run.lead_eq.trans after_lead
  have hwhole : Run (language fs) {} e := after_run_language.trans run
  have hsymbols := hapart.ne_of_mem_language
  rw [hlead] at hsymbols
  obtain ⟨bits, hbits, htrue⟩ := hwhole.exists_truthful hsymbols v
  refine ⟨bits, hfree bits htrue (fun f x hx => ?_) fun f hf => ?_⟩
  · rw [htrue f x (run.get?_of_some hx), valuation_eq hlead, valuation_eq after_lead]
  · rw [← hv f hf]
    refine f.dependsOn_names fun y hy => ?_
    have := hbits y (Formula.var_mem_language.2 ⟨f, hf, hy⟩)
    rwa [hlead, String.empty_append] at this

end Encoder

/-! ## The energy of a problem -/

/-- Penalties and weights with which no part of the energy can become negative, and only the hints
can be switched off. -/
structure Penalties.Allows (penalty : Penalties K) (weights : NameTable K) : Prop where
  axioms : 0 < penalty.axioms
  goal : 0 < penalty.goal
  structural : 0 < penalty.structural
  rule : 0 ≤ penalty.rule
  weights : ∀ x ∈ weights.entries, x.2 ≤ 2

/-- The weight of a rule, one if it has none, is at most two if all weights given are. -/
lemma NameTable.getD_le_two [IsStrictOrderedRing K] {weights : NameTable K}
    (h : ∀ x ∈ weights.entries, x.2 ≤ 2) (rule : String) : weights.getD rule 1 ≤ 2 := by
  rw [Table.getD, Table.get?]
  cases hx : weights.entries.find? fun entry => entry.1 == rule with
  | none => norm_num
  | some x => exact h x (List.mem_of_find?_eq_some hx)

namespace Problem

section Parts

variable {K : Type} [Field K] {axioms : List Formula} {goal : Formula}

lemma ofFormulas_bits : (ofFormulas axioms goal).axiomBits ++ [(ofFormulas axioms goal).goalBit] =
    (Encoder.encodeAll {} (axioms ++ [goal])).1 := by
  rw [Encoder.encodeAll_append]
  rfl

lemma ofFormulas_ties : (ofFormulas axioms goal).ties =
    (Encoder.after "" (axioms ++ [goal])).ties := by
  rw [Encoder.after, Encoder.encodeAll_append]
  rfl

lemma ofFormulas_hints : Hint.ofAxioms axioms (Encoder.after "" (axioms ++ [goal])) =
    ((ofFormulas axioms goal).hints, (ofFormulas axioms goal).encoder) := by
  rw [Encoder.after, Encoder.encodeAll_append]
  rfl

lemma ofFormulas_found (axioms : List Formula) (goal : Formula) :
    Hint.Found axioms (axioms ++ [goal]) (Encoder.after "" (axioms ++ [goal]))
      ((ofFormulas axioms goal).hints, (ofFormulas axioms goal).encoder) := by
  rw [← ofFormulas_hints]
  refine Hint.ofAxioms_found (fun f hf => Formula.mem_language_of_mem ?_) _
  exact List.mem_append_left _ hf

/-- What the hints of a rule are multiplied with. -/
def hintFactor (penalty : Penalties K) (weights : NameTable K) (r : Rule) : K :=
  penalty.rule * (2 - weights.getD r.name 1)

lemma cost_energy (p : Problem) (penalty : Penalties K) (weights : NameTable K)
    (bits : Valuation) : (p.energy penalty weights).cost bits =
      (p.axiomBits.map fun b =>
        penalty.axioms * (Energy.asksFor b.name : Energy K).cost bits).sum +
      penalty.goal * (Energy.asksFor p.goalBit.name : Energy K).cost bits +
      (p.ties.map fun t => penalty.structural * (t.energy : Energy K).cost bits).sum +
      (p.hints.map fun h =>
        hintFactor penalty weights h.rule * (h.energy : Energy K).cost bits).sum := by
  simp [energy, Energy.cost_foldl_add, hintFactor]

end Parts

variable [IsStrictOrderedRing K] {penalty : Penalties K} {weights : NameTable K}

lemma hintFactor_nonneg (h : penalty.Allows weights) (r : Rule) :
    0 ≤ hintFactor penalty weights r :=
  mul_nonneg h.rule (sub_nonneg.2 (NameTable.getD_le_two h.weights r.name))

/-- None of the four parts of the energy is negative, so it is zero exactly when all four are. -/
lemma cost_energy_cases (h : penalty.Allows weights) (p : Problem) (bits : Valuation) :
    0 ≤ (p.energy penalty weights).cost bits ∧
    ((p.energy penalty weights).cost bits = 0 ↔
      ((∀ x ∈ p.axiomBits, bits x.name = true) ∧ bits p.goalBit.name = true) ∧
      (∀ t ∈ p.ties, t.Holds bits) ∧
      ∀ g ∈ p.hints, hintFactor penalty weights g.rule * (g.energy : Energy K).cost bits = 0) := by
  have hasks : ∀ x ∈ p.axiomBits, 0 ≤ (Energy.asksFor x.name : Energy K).cost bits :=
    fun x _ => Energy.cost_asksFor_nonneg x.name
  have hties : ∀ t ∈ p.ties, 0 ≤ (t.energy : Energy K).cost bits :=
    fun t _ => Tie.cost_nonneg t bits
  have hhints : ∀ g ∈ p.hints,
      0 ≤ hintFactor penalty weights g.rule * (g.energy : Energy K).cost bits :=
    fun g _ => mul_nonneg (hintFactor_nonneg h g.rule) Hint.cost_nonneg
  have h1 := Energy.sum_map_mul_nonneg h.axioms.le hasks
  have h2 : 0 ≤ penalty.goal * (Energy.asksFor p.goalBit.name : Energy K).cost bits :=
    mul_nonneg h.goal.le (Energy.cost_asksFor_nonneg _)
  have h3 := Energy.sum_map_mul_nonneg h.structural.le hties
  have h4 := Energy.sum_map_nonneg hhints
  rw [cost_energy]
  refine ⟨by positivity, ?_⟩
  rw [add_eq_zero_iff_of_nonneg (by positivity) h4, add_eq_zero_iff_of_nonneg (by positivity) h3,
    add_eq_zero_iff_of_nonneg h1 h2, Energy.sum_map_mul_eq_zero_iff h.axioms hasks, mul_eq_zero,
    or_iff_right h.goal.ne', Energy.sum_map_mul_eq_zero_iff h.structural hties,
    Energy.sum_map_eq_zero_iff hhints, and_assoc]
  simp only [Energy.cost_asksFor_eq_zero_iff, Tie.cost_eq_zero_iff]

/-- A point of no cost has ones at the axioms and the goal and keeps their ties. -/
lemma demands_of_cost_eq_zero (h : penalty.Allows weights) {axioms : List Formula} {goal : Formula}
    {bits : Valuation} (hzero : ((ofFormulas axioms goal).energy penalty weights).cost bits = 0) :
    (∀ x ∈ (Encoder.encodeAll {} (axioms ++ [goal])).1, bits x.name = true) ∧
      (Encoder.after "" (axioms ++ [goal])).Kept bits := by
  obtain ⟨⟨haxioms, hgoal⟩, hties, -⟩ := (cost_energy_cases h _ bits).2.1 hzero
  rw [← ofFormulas_bits, Encoder.Kept, ← ofFormulas_ties]
  refine ⟨fun x hx => ?_, hties⟩
  rcases List.mem_append.1 hx with hx | hx
  · exact haxioms x hx
  · rw [List.mem_singleton.1 hx]
    exact hgoal

theorem energy_grounds (h : penalty.Allows weights) (axioms : List Formula) (goal : Formula)
    (hapart : (ofFormulas axioms goal).encoder.Apart (axioms ++ [goal])) :
    ((ofFormulas axioms goal).energy penalty weights).Grounds (axioms ++ [goal]) := by
  have hcost := cost_energy_cases h (ofFormulas axioms goal)
  have hfound := ofFormulas_found axioms goal
  refine Encoder.grounds_of_run hfound.run hapart (fun bits => (hcost bits).1)
    (fun _ => demands_of_cost_eq_zero h) ?_
  intro bits htrue hearly hmodel
  have hbits := (Encoder.forall_bits_iff hearly).2 hmodel
  rw [← ofFormulas_bits] at hbits
  refine (hcost bits).2.2 ⟨⟨fun x hx => hbits x (by simp [hx]), hbits _ (by simp)⟩, ?_, ?_⟩
  · rw [ofFormulas_ties]
    exact Encoder.after_run.kept_iff_truthful.2 hearly
  · intro g hg
    refine mul_eq_zero_of_right _ (Hint.cost_eq_zero fun n hn => ?_)
    obtain ⟨f, x, hx, rfl, hentails⟩ := hfound.backed g hg n hn
    rw [htrue f x hx, Encoder.valuation_eq (hfound.run.lead_eq.trans Encoder.after_lead)]
    exact hentails bits fun a ha => hmodel a (List.mem_append_left _ ha)

end Problem

/-! ## The plain energy -/

omit [LinearOrder K] in
lemma plainEnergy_eq (axioms : List Formula) (goal : Formula) (a s : K) :
    plainEnergy axioms goal a s =
      ((Encoder.encodeAll {} (axioms ++ [goal])).1.foldl
          (fun h b => h + .weight a * .asksFor b.name) 0 +
        .weight s * (Encoder.after "" (axioms ++ [goal])).energy ((1 : ℕ) : K),
      Encoder.after "" (axioms ++ [goal])) := by
  rw [Encoder.after, Encoder.encodeAll_append]
  rfl

variable [IsStrictOrderedRing K]

lemma cost_plainEnergy_cases {a s : K} (ha : 0 < a) (hs : 0 < s) (axioms : List Formula)
    (goal : Formula) (bits : Valuation) :
    0 ≤ (plainEnergy axioms goal a s).1.cost bits ∧
    ((plainEnergy axioms goal a s).1.cost bits = 0 ↔
      (∀ x ∈ (Encoder.encodeAll {} (axioms ++ [goal])).1, bits x.name = true) ∧
      (Encoder.after "" (axioms ++ [goal])).Kept bits) := by
  rw [plainEnergy_eq]
  set xs := (Encoder.encodeAll {} (axioms ++ [goal])).1
  set e := Encoder.after "" (axioms ++ [goal])
  have hasks : ∀ x ∈ xs, 0 ≤ (Energy.asksFor x.name : Energy K).cost bits :=
    fun x _ => Energy.cost_asksFor_nonneg x.name
  have hone : (0 : K) < ((1 : ℕ) : K) := by simp
  have h1 := Energy.sum_map_mul_nonneg ha.le hasks
  have h2 : 0 ≤ s * (e.energy ((1 : ℕ) : K)).cost bits :=
    mul_nonneg hs.le (Encoder.cost_energy_nonneg hone.le)
  simp only [Energy.cost_add, Energy.cost_foldl_add, Energy.cost_mul, Energy.cost_weight,
    Energy.cost_ofNat, Nat.cast_zero, zero_add]
  refine ⟨add_nonneg h1 h2, ?_⟩
  rw [add_eq_zero_iff_of_nonneg h1 h2, Energy.sum_map_mul_eq_zero_iff ha hasks, mul_eq_zero,
    or_iff_right hs.ne', Encoder.cost_energy_eq_zero_iff hone]
  simp only [Energy.cost_asksFor_eq_zero_iff]

theorem plainEnergy_grounds {a s : K} (ha : 0 < a) (hs : 0 < s) (axioms : List Formula)
    (goal : Formula) (hapart : (plainEnergy axioms goal a s).2.Apart (axioms ++ [goal])) :
    (plainEnergy axioms goal a s).1.Grounds (axioms ++ [goal]) := by
  have hcost := cost_plainEnergy_cases ha hs axioms goal
  rw [plainEnergy_eq] at hapart
  refine Encoder.grounds_of_run .refl hapart (fun bits => (hcost bits).1)
    (fun bits => (hcost bits).2.1) (fun bits htrue _ hmodel => (hcost bits).2.2 ⟨?_, ?_⟩)
  · exact (Encoder.forall_bits_iff htrue).2 hmodel
  · exact Encoder.after_run.kept_iff_truthful.2 htrue

/-- **The ground states are the joint models of the axioms and the goal**, for the energy of a
problem and for the plain one, whenever no symbol is named like a bit that the encoder has handed
out to a compound formula. -/
theorem ground_states_are_models (axioms : List Formula) (goal : Formula) (penalty : Penalties K)
    (weights : NameTable K) (h : penalty.Allows weights) :
    ((Problem.ofFormulas axioms goal).encoder.Apart (axioms ++ [goal]) →
      ((Problem.ofFormulas axioms goal).energy penalty weights).Grounds (axioms ++ [goal])) ∧
    ((plainEnergy axioms goal penalty.axioms penalty.structural).2.Apart (axioms ++ [goal]) →
      (plainEnergy axioms goal penalty.axioms penalty.structural).1.Grounds
        (axioms ++ [goal])) :=
  ⟨Problem.energy_grounds h axioms goal,
    plainEnergy_grounds h.axioms h.structural axioms goal⟩

/-- Hints of all three kinds, one of them on the negation of `R`, which is encoded only for it; the
weight of the first rule switches its hint off. -/
theorem ground_states_are_models_hinted :
    let axioms : List Formula :=
      [.impl (.var "P") (.var "Q"), .var "P", .impl (.var "R") (.var "S"), .neg (.var "S"),
        .conj (.var "P") (.var "Q")]
    let goal : Formula := .neg (.var "S")
    let penalty : Penalties ℚ := ⟨100, 100, 20, 10⟩
    let weights : NameTable ℚ := ⟨[("modus_ponens", 2)]⟩
    penalty.Allows weights ∧ (Problem.ofFormulas axioms goal).encoder.Apart (axioms ++ [goal]) ∧
      ((Problem.ofFormulas axioms goal).energy penalty weights).Grounds (axioms ++ [goal]) ∧
      (plainEnergy axioms goal penalty.axioms penalty.structural).1.Grounds (axioms ++ [goal]) := by
  intro axioms goal penalty weights
  have h : penalty.Allows weights := by
    constructor <;> simp [penalty, weights]
  have hapart : (Problem.ofFormulas axioms goal).encoder.Apart (axioms ++ [goal]) := by decide
  have hplain : (plainEnergy axioms goal penalty.axioms penalty.structural).2.Apart
      (axioms ++ [goal]) := by
    rw [plainEnergy_eq]
    decide
  obtain ⟨hproblem, hplain'⟩ := ground_states_are_models axioms goal penalty weights h
  exact ⟨h, hapart, hproblem hapart, hplain' hplain⟩

end AnnealProver
