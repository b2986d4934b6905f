import AnnealProver.Proofs.Decoding

/-!
# Ground states that decoding turns down

The energy of a problem has the ties of the axioms and of the goal.  Decoding checks all ties of the
encoder, also the **late** ones, which were made after the energy's while hints were looked for.

Late ties have one source.  The parts of the axioms have their bits by then, so that of the three
kinds of hints only modus tollens can ask for a new bit: that of `¬p`, where `p → q` is an axiom and
the opposite of `q` is one too (`Hint.ofAxioms_run`).  At a ground state such a `p` is false, while
nothing in the energy makes the bit of `¬p` one.  So a ground state passes exactly when it happens
to have ones at the late bits.
-/

namespace AnnealProver

/-! ## The ties that a run adds -/

namespace Encoder

variable {e e' : Encoder} {F : Set Formula} {a : Formula} {x : Encoded}

lemma Run.exists_ties_append (h : Run F e e') :
    ∃ late, e'.ties = e.ties ++ late ∧
      ∀ t ∈ late, ∃ f ∈ F, e.formulas.get? f = none ∧ e'.Binds f t := by
  induction h with
  | refl => exact ⟨[], by simp, by simp⟩
  | @tail e₁ e₂ run step ih =>
      obtain ⟨late, hties, hlate⟩ := ih
      have hkept : ∀ t ∈ late, ∃ f ∈ F, e.formulas.get? f = none ∧ e₂.Binds f t := by
        intro t ht
        obtain ⟨f, hf, hnew, hbinds⟩ := hlate t ht
        exact ⟨f, hf, hnew, hbinds.of_run (.single step)⟩
      cases step with
      | symbol _ _ => exact ⟨late, by rw [addSymbol_ties, hties], hkept⟩
      | @tie f u hf hnew hu =>
          refine ⟨late ++ [u], by rw [withTie_ties, hties, List.append_assoc], ?_⟩
          intro t ht
          rcases List.mem_append.1 ht with ht | ht
          · exact hkept t ht
          · obtain rfl := List.mem_singleton.1 ht
            -- bits are never taken away, so `f` had none at the start either
            refine ⟨f, hf, ?_, hu.binds.of_run (.single (.tie hf hnew hu))⟩
            cases hearly : e.formulas.get? f with
            | none => rfl
            | some y => rw [Run.get?_of_some run hearly] at hnew; cases hnew

/-- A negation that got its bit on the way has brought a tie. -/
lemma Run.length_ties_lt (h : Run F e e') (hnew : e.formulas.get? (.neg a) = none)
    (hx : e'.formulas.get? (.neg a) = some x) : e.ties.length < e'.ties.length := by
  induction h with
  | refl => rw [hnew] at hx; cases hx
  | @tail e₁ e₂ run step ih =>
      obtain ⟨late, hties, -⟩ := Run.exists_ties_append run
      cases step with
      | symbol _ hy =>
          -- a symbol is no negation, so the bit was there before
          rw [(addSymbol_adds hy).formulas, FormulaTable.get?_insert hy] at hx
          rw [addSymbol_ties]
          exact ih hx
      | tie _ _ _ =>
          rw [withTie_ties, hties]
          simp

/-- Negating a formula that has a bit takes one step at most. -/
lemma encode_neg_run (ha : e.formulas.get? a = some x) (hF : .neg a ∈ F) :
    Run F e (e.encode (.neg a)).2 := by
  cases h : e.formulas.get? (.neg a) with
  | some y => rw [encode_known h]
  | none =>
      have hencode : e.encode (.neg a) = e.addNeg (.neg a) x := by
        simp [encode, h, encode_known ha]
      rw [hencode]
      exact .single (.tie hF h (.neg ha))

end Encoder

/-! ## What hints ask for -/

namespace Hint

variable {axioms gs : List Formula} {e e' : Encoder} {F : Set Formula} {f g p q : Formula}

/-- The opposites of left sides of axioms whose right sides are denied by an axiom. -/
def denied (axioms : List Formula) : Set Formula :=
  {f | ∃ p q, .impl p q ∈ axioms ∧ q.opposite.isAmong axioms = true ∧ f = p.opposite}

/-- All parts of the axioms have bits. -/
def Known (axioms : List Formula) (e : Encoder) : Prop :=
  ∀ f ∈ axioms, ∀ g ∈ f.subformulas, ∃ x, e.formulas.get? g = some x

namespace Known

lemma of_run (h : Known axioms e) (run : Encoder.Run F e e') : Known axioms e' := by
  intro f hf g hg
  obtain ⟨x, hx⟩ := h f hf g hg
  exact ⟨x, run.get?_of_some hx⟩

lemma encode_part (h : Known axioms e) (hf : f ∈ axioms) (hg : g ∈ f.subformulas) :
    (e.encode g).2 = e := by
  obtain ⟨x, hx⟩ := h f hf g hg
  rw [Encoder.encode_known hx]

lemma encode_sides {c : Connective} (h : Known axioms e) (hf : c.apply p q ∈ axioms) :
    (e.encode p).2 = e ∧ (e.encode (c.apply p q)).2 = e ∧ (e.encode q).2 = e := by
  refine ⟨h.encode_part hf ?_, h.encode_part hf ?_, h.encode_part hf ?_⟩ <;>
    simp [Formula.self_mem_subformulas]

lemma encode_isAmong (h : Known axioms e) (hg : g.isAmong axioms = true) :
    (e.encode g).2 = e := by
  obtain ⟨f, hf, hfg⟩ := List.any_eq_true.1 hg
  obtain ⟨x, hx⟩ := h f hf f f.self_mem_subformulas
  rw [FormulaTable.get?_congr hfg] at hx
  rw [Encoder.encode_known hx]

/-- The opposite of a left side: a negation is taken off, or put on in one step at most. -/
lemma encode_opposite (h : Known axioms e) (hf : .impl p q ∈ axioms) (hF : p.opposite ∈ F) :
    e.Run F (e.encode p.opposite).2 := by
  have hpart : ∀ g ∈ p.subformulas, ∃ x, e.formulas.get? g = some x :=
    fun g hg => h _ hf g (by simp [Formula.subformulas, hg])
  cases p with
  | neg a =>
      obtain ⟨x, hx⟩ := hpart a (by simp [Formula.subformulas, Formula.self_mem_subformulas])
      rw [Formula.opposite, Encoder.encode_known hx]
  | _ =>
      obtain ⟨x, hx⟩ := hpart _ (Formula.self_mem_subformulas _)
      exact Encoder.encode_neg_run hx hF

end Known

/-- A search that, seeking at an axiom, gives new bits to formulas of `F` only. -/
def KeepsTo (axioms : List Formula) (F : Set Formula)
    (seek : Encoder → Formula → Option Hint × Encoder) : Prop :=
  ∀ e, Known axioms e → ∀ f ∈ axioms, e.Run F (seek e f).2

lemma ponens?_keepsTo : KeepsTo axioms F (ponens? axioms) := by
  intro e h f hf
  cases f with
  | impl p q =>
      obtain ⟨hp, hwhole, hq⟩ := h.encode_sides (c := .impl) hf
      simp only [Connective.apply] at hwhole
      simp only [ponens?]
      split_ifs
      · simp only [hp, hwhole, hq]
        exact .refl
      · exact .refl
  | _ => exact .refl

lemma tollens?_keepsTo : KeepsTo axioms (denied axioms) (tollens? axioms) := by
  intro e h f hf
  cases f with
  | impl p q =>
      obtain ⟨-, hwhole, -⟩ := h.encode_sides (c := .impl) hf
      simp only [Connective.apply] at hwhole
      simp only [tollens?]
      split_ifs with hq
      · simp only [hwhole, h.encode_isAmong hq]
        exact h.encode_opposite hf ⟨p, q, hf, hq, rfl⟩
      · exact .refl
  | _ => exact .refl

lemma parts?_keepsTo : KeepsTo axioms F (fun e => parts? e) := by
  intro e h f hf
  cases f with
  | conj p q =>
      obtain ⟨hp, hwhole, hq⟩ := h.encode_sides (c := .conj) hf
      simp only [Connective.apply] at hwhole
      simp only [parts?, hp, hwhole, hq]
      exact .refl
  | _ => exact .refl

lemma gather_run {seek : Encoder → Formula → Option Hint × Encoder}
    (hseek : KeepsTo axioms F seek) (h : Known axioms e) (hgs : gs ⊆ axioms) :
    e.Run F (gather seek e gs).2 := by
  induction gs generalizing e with
  | nil => exact .refl
  | cons g gs ih =>
      have hstep := hseek e h g (hgs List.mem_cons_self)
      exact hstep.trans (ih (h.of_run hstep) fun f hf => hgs (List.mem_cons_of_mem _ hf))

/-- The search has been at every formula on the way. -/
lemma exists_gather_run {seek : Encoder → Formula → Option Hint × Encoder}
    (hseek : KeepsTo axioms F seek) (h : Known axioms e) (hgs : gs ⊆ axioms) (hf : f ∈ gs) :
    ∃ e₁, Encoder.Run F (seek e₁ f).2 (gather seek e gs).2 := by
  induction gs generalizing e with
  | nil => cases hf
  | cons g gs ih =>
      have htail : gs ⊆ axioms := fun f hf => hgs (List.mem_cons_of_mem _ hf)
      have hknown := h.of_run (hseek e h g (hgs List.mem_cons_self))
      rcases List.mem_cons.1 hf with rfl | hf
      · exact ⟨e, gather_run hseek hknown htail⟩
      · exact ih hknown htail hf

/-- **Only modus tollens asks for new bits**: it wants the opposite of every left side whose right
side is denied to have one. -/
theorem ofAxioms_run (h : Known axioms e) :
    e.Run (denied axioms) (ofAxioms axioms e).2 ∧
      ∀ g ∈ denied axioms, ∃ x, (ofAxioms axioms e).2.formulas.get? g = some x := by
  have hgather : ∀ {seek e}, KeepsTo axioms (denied axioms) seek → Known axioms e →
      e.Run (denied axioms) (gather seek e axioms).2 :=
    fun hseek h => gather_run hseek h (List.Subset.refl axioms)
  have hponens := hgather ponens?_keepsTo h
  have htollens := hgather tollens?_keepsTo (h.of_run hponens)
  have hparts := hgather parts?_keepsTo ((h.of_run hponens).of_run htollens)
  refine ⟨(hponens.trans htollens).trans hparts, ?_⟩
  rintro _ ⟨p, q, hpq, hq, rfl⟩
  -- modus tollens was tried at `p → q`, and what was encoded there stays to the end
  obtain ⟨e₁, hrest⟩ := exists_gather_run tollens?_keepsTo (h.of_run hponens)
    (List.Subset.refl axioms) hpq
  simp only [tollens?, hq, if_true] at hrest
  exact ⟨_, hparts.get?_of_some (hrest.get?_of_some (Encoder.encode_encodes _ _).found)⟩

end Hint

/-! ## Late ties -/

namespace Problem

variable {axioms : List Formula} {goal : Formula} {t : Tie}

/-- The ties that are not part of the energy. -/
def lateTies (p : Problem) : List Tie :=
  p.encoder.ties.drop p.ties.length

/-- The tie of a negation `¬p` that was encoded for a hint: `p → q` is an axiom, and so is the
opposite of `q`. -/
def IsLate (axioms : List Formula) (goal : Formula) (t : Tie) : Prop :=
  ∃ p q x, .impl p q ∈ axioms ∧ q.opposite.isAmong axioms = true ∧
    (Encoder.after "" (axioms ++ [goal])).formulas.get? p.opposite = none ∧
    (Encoder.after "" (axioms ++ [goal])).formulas.get? p = some x ∧ t = .neg x.name t.name

lemma known_after (axioms : List Formula) (goal : Formula) :
    Hint.Known axioms (Encoder.after "" (axioms ++ [goal])) :=
  fun _ hf _ hg => Encoder.exists_get?_after (List.mem_append_left _ hf) hg

/-- The opposite of a left side that has no bit is a negation. -/
lemma opposite_eq_neg {p q : Formula} (hpq : .impl p q ∈ axioms)
    (hnew : (Encoder.after "" (axioms ++ [goal])).formulas.get? p.opposite = none) :
    p.opposite = .neg p := by
  cases p with
  | neg a =>
      -- here the opposite is a part of the axiom and has its bit
      obtain ⟨x, hx⟩ := known_after axioms goal _ hpq a
        (by simp [Formula.subformulas, Formula.self_mem_subformulas])
      rw [Formula.opposite, hx] at hnew
      cases hnew
  | _ => rfl

lemma ofFormulas_run (axioms : List Formula) (goal : Formula) :
    Encoder.Run (Hint.denied axioms) (Encoder.after "" (axioms ++ [goal]))
        (ofFormulas axioms goal).encoder ∧
      ∀ g ∈ Hint.denied axioms, ∃ x, (ofFormulas axioms goal).encoder.formulas.get? g = some x := by
  have hrun := Hint.ofAxioms_run (known_after axioms goal)
  rwa [ofFormulas_hints] at hrun

/-- The ties of the encoder are those of the energy, then the late ones. -/
lemma ofFormulas_encoder_ties (axioms : List Formula) (goal : Formula) :
    (ofFormulas axioms goal).encoder.ties =
      (ofFormulas axioms goal).ties ++ (ofFormulas axioms goal).lateTies ∧
    ∀ t ∈ (ofFormulas axioms goal).lateTies, IsLate axioms goal t := by
  obtain ⟨hrun, -⟩ := ofFormulas_run axioms goal
  obtain ⟨late, hties, hlate⟩ := hrun.exists_ties_append
  rw [← ofFormulas_ties] at hties
  have hdrop : (ofFormulas axioms goal).lateTies = late := by
    rw [lateTies, hties, List.drop_left]
  rw [hdrop]
  refine ⟨hties, fun t ht => ?_⟩
  obtain ⟨_, ⟨p, q, hpq, hq, rfl⟩, hnew, hbinds⟩ := hlate t ht
  rw [opposite_eq_neg hpq hnew] at hbinds
  obtain ⟨y, hy, hname⟩ := hbinds.exists_of_neg
  obtain ⟨x, hx⟩ := known_after axioms goal _ hpq p
    (by simp [Formula.subformulas, Formula.self_mem_subformulas])
  obtain rfl := Option.some.inj ((hrun.get?_of_some hx).symm.trans hy)
  exact ⟨p, q, x, hpq, hq, hnew, hx, hname⟩

/-- There are no late ties exactly when the opposites that modus tollens asks for occur, up to
likeness, in the axioms or the goal. -/
lemma lateTies_eq_nil_iff (axioms : List Formula) (goal : Formula) :
    (ofFormulas axioms goal).lateTies = [] ↔
      ∀ p q, .impl p q ∈ axioms → q.opposite.isAmong axioms = true →
        ∃ f ∈ axioms ++ [goal], ∃ g ∈ f.subformulas, g.alike p.opposite = true := by
  obtain ⟨hties, hlate⟩ := ofFormulas_encoder_ties axioms goal
  obtain ⟨hrun, hdenied⟩ := ofFormulas_run axioms goal
  constructor
  · intro hnil p q hpq hq
    cases hearly : (Encoder.after "" (axioms ++ [goal])).formulas.get? p.opposite with
    | some x =>
        obtain ⟨g, ⟨f, hf, hg⟩, halike⟩ := Encoder.after_run.tidy.among _ x hearly
        exact ⟨f, hf, g, hg, halike⟩
    | none =>
        obtain ⟨x, hx⟩ := hdenied _ ⟨p, q, hpq, hq, rfl⟩
        have hneg := opposite_eq_neg hpq hearly
        rw [hneg] at hearly hx
        have hlonger := hrun.length_ties_lt hearly hx
        rw [hties, hnil, List.append_nil, ofFormulas_ties] at hlonger
        exact absurd hlonger (lt_irrefl _)
  · intro hoccur
    refine List.eq_nil_iff_forall_not_mem.2 fun t ht => ?_
    obtain ⟨p, q, -, hpq, hq, hnew, -⟩ := hlate t ht
    obtain ⟨f, hf, g, hg, halike⟩ := hoccur p q hpq hq
    obtain ⟨x, hx⟩ : ∃ x, (Encoder.after "" (axioms ++ [goal])).formulas.get? g = some x :=
      Encoder.exists_get?_after hf hg
    rw [← FormulaTable.get?_congr halike, hx] at hnew
    cases hnew

variable {K : Type} [Field K] [LinearOrder K] [IsStrictOrderedRing K] {penalty : Penalties K}
  {weights : NameTable K} {s : Sample} {ε : Type} [LT ε] [DecidableLT ε]

/-- Where the axioms have ones and the ties of the energy hold, a late tie holds exactly when its
own bit is one, for the axioms entail that the formula it negates is false. -/
lemma IsLate.passes_iff (ht : IsLate axioms goal t) (hs : s.Binary)
    (htrue : (Encoder.after "" (axioms ++ [goal])).Truthful s.point)
    (haxioms : ∀ f ∈ axioms, f.eval s.point = true) : t.Passes s ↔ s.value t.name = 1 := by
  obtain ⟨p, q, x, hpq, hq, -, hx, hname⟩ := ht
  have hfalse : s.point x.name = false := by
    have hopposite := ((Entails.of_mem hpq).tollens (Entails.of_isAmong hq)) s.point haxioms
    rw [Formula.eval_opposite, Bool.not_eq_true'] at hopposite
    rw [htrue p x hx, Encoder.valuation_eq Encoder.after_lead, hopposite]
  have hzero : s.value x.name = 0 := by
    rw [hs.value_eq, hfalse, if_neg Bool.false_ne_true]
  rw [hname, Tie.Passes, hzero, add_zero]
  rfl

/-- **A ground state is accepted exactly when its late bits are ones.**  There are no late bits
where every opposite that modus tollens asks for occurs in the axioms or the goal. -/
theorem ground_state_accepted_iff (axioms : List Formula) (goal : Formula)
    (h : penalty.Allows weights) (hs : s.Binary)
    (hzero : ((ofFormulas axioms goal).energy penalty weights).valueAt s = 0) (energy : ε) :
    ∃ d, (ofFormulas axioms goal).decode? [s] [energy] = some d ∧
      (d.proofHolds = true ↔ ∀ t ∈ (ofFormulas axioms goal).lateTies, s.value t.name = 1) ∧
      ((ofFormulas axioms goal).lateTies = [] ↔
        ∀ p q, .impl p q ∈ axioms → q.opposite.isAmong axioms = true →
          ∃ f ∈ axioms ++ [goal], ∃ g ∈ f.subformulas, g.alike p.opposite = true) := by
  obtain ⟨hties, hlate⟩ := ofFormulas_encoder_ties axioms goal
  rw [Energy.valueAt_eq_cost hs] at hzero
  obtain ⟨hbits, hkept⟩ := demands_of_cost_eq_zero h hzero
  have htrue := Encoder.after_run.kept_iff_truthful.1 hkept
  have hmodel := (Encoder.forall_bits_iff htrue).1 hbits
  rw [← ofFormulas_bits] at hbits
  rw [Encoder.Kept, ← ofFormulas_ties] at hkept
  refine ⟨_, decode?_singleton _ s energy, ?_, lateTies_eq_nil_iff axioms goal⟩
  rw [ofSample_proofHolds_iff ofFormulas_listed]
  have hpasses : ∀ t ∈ (ofFormulas axioms goal).lateTies, (t.Passes s ↔ s.value t.name = 1) :=
    fun t ht =>
      (hlate t ht).passes_iff hs htrue fun f hf => hmodel f (List.mem_append_left _ hf)
  constructor
  · intro haccepts t ht
    rw [← hpasses t ht]
    exact haccepts.ties t (by rw [hties]; exact List.mem_append_right _ ht)
  · intro hones
    refine ⟨fun x hx => Sample.point_iff.1 (hbits x hx), ?_⟩
    rw [hties]
    intro t ht
    rcases List.mem_append.1 ht with ht | ht
    · exact (Tie.passes_iff hs).2 (Or.inl (hkept t ht))
    · exact (hpasses t ht).2 (hones t ht)

/-- Modus tollens asks for the bit of `¬P`.  Where it is one, the ground state is accepted. -/
theorem ground_state_accepted_iff_tollens :
    let axioms : List Formula := [.impl (.var "P") (.var "Q"), .neg (.var "Q")]
    let p := ofFormulas axioms (.neg (.var "Q"))
    let penalty : Penalties ℚ := ⟨100, 100, 20, 10⟩
    let s : Sample := ⟨[("Imp_P_Q_1", 1), ("P", 0), ("Q", 0), ("Not_Q_2", 1), ("Not_P_3", 1),
      ("Rule_MT_P_Q", 1)]⟩
    penalty.Allows ∅ ∧ s.Binary ∧ (p.energy penalty ∅).valueAt s = 0 ∧
      p.lateTies = [.neg "P" "Not_P_3"] ∧
      ∃ d, p.decode? [s] [0] = some d ∧ d.proofHolds = true := by
  intro axioms p penalty s
  have h : penalty.Allows ∅ := by
    refine ⟨?_, ?_, ?_, ?_, nofun⟩ <;> norm_num [penalty]
  have hs : s.Binary := by decide
  have hzero : (p.energy penalty ∅).valueAt s = 0 := by decide +kernel
  obtain ⟨d, hd, haccepted, -⟩ := ground_state_accepted_iff axioms (.neg (.var "Q")) h hs hzero 0
  exact ⟨h, hs, hzero, by decide, d, hd, haccepted.2 (by decide)⟩

/-- Where it is zero, and the control of the hint too, a ground state is turned down. -/
theorem ground_state_turned_down :
    let p := ofFormulas [.impl (.var "P") (.var "Q"), .neg (.var "Q")] (.neg (.var "Q"))
    let penalty : Penalties ℚ := ⟨100, 100, 20, 10⟩
    let s : Sample := ⟨[("Imp_P_Q_1", 1), ("P", 0), ("Q", 0), ("Not_Q_2", 1), ("Not_P_3", 0),
      ("Rule_MT_P_Q", 0)]⟩
    penalty.Allows ∅ ∧ s.Binary ∧ (p.energy penalty ∅).valueAt s = 0 ∧
      ∃ d, p.decode? [s] [0] = some d ∧ d.proofHolds = false := by
  intro p penalty s
  have h : penalty.Allows ∅ := by
    refine ⟨?_, ?_, ?_, ?_, nofun⟩ <;> norm_num [penalty]
  exact ⟨h, by decide, by decide +kernel, _, rfl, rfl⟩

end Problem

end AnnealProver
