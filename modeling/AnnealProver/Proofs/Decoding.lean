import AnnealProver.Sampling.Decoding
import AnnealProver.Proofs.GroundStates

/-!
# What decoding looks at

Decoding goes through the table of the encoder and checks negations and implications.  Every entry
of the table is a symbol or has its tie (`Run.listed`), so the checks can be said of ties: a tie
**passes**, or something is found wrong (`Decoded.fault?_eq_none_iff`).

At a zero-one sample a tie that holds passes.  The converse is true of negations only: an
implication is checked in one of its four cases, and nothing else is checked at all.  The ties that
pass without holding are **overlooked**.
-/

namespace AnnealProver

/-! ## Samples as points -/

namespace Sample

variable {s : Sample} {n : String}

def Within (A : Set ℤ) (s : Sample) : Prop :=
  ∀ entry ∈ s.entries, entry.2 ∈ A

/-- All values are zero or one. -/
def Binary (s : Sample) : Prop :=
  s.Within {0, 1}

instance (s : Sample) : Decidable s.Binary :=
  inferInstanceAs (Decidable (∀ entry ∈ s.entries, entry.2 = 0 ∨ entry.2 = 1))

lemma Within.value_mem {A : Set ℤ} (hs : s.Within A) (hzero : 0 ∈ A) (n : String) :
    s.value n ∈ A := by
  rw [value, Table.getD, Table.get?]
  cases hfind : s.entries.find? fun entry => entry.1 == n with
  | none => exact hzero
  | some entry => exact hs entry (List.mem_of_find?_eq_some hfind)

/-- The point at which the bits with the value one are true. -/
def point (s : Sample) : Valuation :=
  fun n => s.value n == 1

lemma point_iff : s.point n = true ↔ s.value n = 1 := by
  simp [point]

lemma Binary.value_eq (hs : s.Binary) (n : String) : s.value n = if s.point n then 1 else 0 := by
  have hvalue : s.value n = 0 ∨ s.value n = 1 := Within.value_mem hs (Or.inl rfl) n
  rcases hvalue with h | h <;> simp [point, h]

end Sample

def Energy.valueAt {K : Type} [Field K] (s : Sample) (e : Energy K) : K :=
  e.value fun n => (s.value n : K)

lemma Energy.valueAt_eq_cost {K : Type} [Field K] {s : Sample} (hs : s.Binary) (e : Energy K) :
    e.valueAt s = e.cost s.point := by
  have hpoint : (fun n => (s.value n : K)) = fun n => if s.point n then 1 else 0 := by
    funext n
    rw [hs.value_eq n]
    split_ifs <;> simp
  rw [valueAt, hpoint, cost]

/-! ## The table of an encoder and its ties -/

namespace Encoder

variable {e e' : Encoder} {F : Set Formula} {f : Formula} {x : Encoded} {t : Tie}

/-- The tie is between a bit and the bits that the parts of the formula have. -/
inductive Binds (e : Encoder) : Formula → Tie → Prop
  | neg {a : Formula} {x : Encoded} {name : String} (ha : e.formulas.get? a = some x) :
      Binds e (.neg a) (.neg x.name name)
  | join {c : Connective} {a b : Formula} {x y : Encoded} {name : String}
      (ha : e.formulas.get? a = some x) (hb : e.formulas.get? b = some y) :
      Binds e (c.apply a b) (.join c x.name y.name name)

lemma NewTie.binds (h : e.NewTie f t) : e.Binds f t := by
  cases h with
  | neg ha => exact .neg ha
  | join ha hb => exact .join ha hb

lemma Binds.of_run (h : e.Binds f t) (run : Run F e e') : e'.Binds f t := by
  cases h with
  | neg ha => exact .neg (run.get?_of_some ha)
  | join ha hb => exact .join (run.get?_of_some ha) (run.get?_of_some hb)

lemma Binds.exists_of_neg {a : Formula} (h : e.Binds (.neg a) t) :
    ∃ x, e.formulas.get? a = some x ∧ t = .neg x.name t.name := by
  generalize hf : Formula.neg a = f at h
  cases h with
  | neg ha =>
      obtain rfl := Formula.neg.inj hf
      exact ⟨_, ha, rfl⟩
  | @join c _ _ _ _ _ _ _ => cases c <;> cases hf

lemma Binds.exists_of_impl {a b : Formula} (h : e.Binds (.impl a b) t) :
    ∃ x y, e.formulas.get? a = some x ∧ e.formulas.get? b = some y ∧
      t = .join .impl x.name y.name t.name := by
  generalize hf : Formula.impl a b = f at h
  cases h with
  | neg _ => cases hf
  | @join c _ _ _ _ _ ha hb =>
      cases c with
      | impl =>
          obtain ⟨rfl, rfl⟩ := Formula.impl.inj hf
          exact ⟨_, _, ha, hb, rfl⟩
      | _ => cases hf

/-- The ties are those of the entries of the table, in the same order. -/
structure Listed (e : Encoder) : Prop where
  found : ∀ entry ∈ e.formulas.entries, e.formulas.get? entry.1 = some entry.2
  ties : e.ties = e.formulas.entries.filterMap (·.2.tie)
  symbol : ∀ entry ∈ e.formulas.entries, entry.2.tie = none → entry.1.isVar = true
  compound : ∀ entry ∈ e.formulas.entries, ∀ t, entry.2.tie = some t →
    e.Binds entry.1 t ∧ t.name = entry.2.name

lemma Adds.entries (h : Adds e f x e') : e'.formulas.entries = e.formulas.entries ++ [(f, x)] := by
  rw [h.formulas, Table.insert, FormulaTable.get?_eq_none.1 h.new]
  rfl

lemma Listed.adds (h : e.Listed) (hadds : Adds e f x e') (run : Run F e e')
    (hties : e'.ties = e.ties ++ x.tie.toList) (hsymbol : x.tie = none → f.isVar = true)
    (hcompound : ∀ t, x.tie = some t → e'.Binds f t ∧ t.name = x.name) : e'.Listed := by
  -- what is true of the old entries has to be looked at for the new one only
  have hentries : ∀ {P : Formula × Encoded → Prop}, (∀ entry ∈ e.formulas.entries, P entry) →
      P (f, x) → ∀ entry ∈ e'.formulas.entries, P entry := by
    intro P hold hnew entry hentry
    rw [hadds.entries, List.mem_append, List.mem_singleton] at hentry
    rcases hentry with hentry | rfl
    · exact hold entry hentry
    · exact hnew
  refine ⟨hentries ?_ hadds.get?_self, ?_, hentries h.symbol hsymbol, hentries ?_ hcompound⟩
  · exact fun entry hentry => hadds.get?_of_some (h.found entry hentry)
  · rw [hties, h.ties, hadds.entries, List.filterMap_append]
    cases htie : x.tie <;> simp [htie]
  · exact fun entry hentry t ht => (h.compound entry hentry t ht).imp_left (·.of_run run)

lemma Step.listed (h : Step F e e') (ih : e.Listed) : e'.Listed := by
  have hrun : Run F e e' := .single h
  cases h with
  | @symbol y hy hnew =>
      exact ih.adds (addSymbol_adds hnew) hrun (by simp) (fun _ => rfl) nofun
  | @tie f t hf hnew ht =>
      refine ih.adds (withTie_adds hnew) hrun rfl nofun fun u hu => ?_
      obtain rfl := Option.some.inj hu
      exact ⟨ht.binds.of_run hrun, rfl⟩

lemma Run.listed {lead : String} (h : Run F { lead } e) : e.Listed := by
  induction h with
  | refl => exact ⟨nofun, rfl, nofun, nofun⟩
  | tail _ step ih => exact step.listed ih

end Encoder

/-! ## What is checked of a tie -/

namespace Tie

variable {s : Sample} {t : Tie}

/-- What decoding asks of a tie. -/
def Passes (s : Sample) : Tie → Prop
  | neg operand name => s.value name + s.value operand = 1
  | join .impl left right name => ¬ (s.value name = 1 ∧ s.value left = 1 ∧ s.value right = 0)
  | join _ _ _ _ => True

/-- A broken tie that decoding does not notice: that of an implication whose bit is zero, or of any
other compound of two formulas. -/
def Overlooked (bits : Valuation) (t : Tie) : Prop :=
  ¬ t.Holds bits ∧
    match t with
    | neg _ _ => False
    | join .impl _ _ name => bits name = false
    | join _ _ _ _ => True

lemma passes_iff (hs : s.Binary) : t.Passes s ↔ t.Holds s.point ∨ t.Overlooked s.point := by
  cases t with
  | neg operand name =>
      simp only [Passes, Holds, Overlooked, and_false, or_false, hs.value_eq]
      cases s.point operand <;> cases s.point name <;> decide
  | join c left right name =>
      cases c with
      | impl =>
          simp only [Passes, Holds, Overlooked, hs.value_eq]
          cases s.point left <;> cases s.point right <;> cases s.point name <;> decide
      | _ => simp [Passes, Overlooked, em]

end Tie

namespace Decoded

variable {e : Encoder} {s : Sample}

lemma negationFault?_eq_none_iff {a : Formula} {x y : Encoded}
    (ha : e.formulas.get? a = some y) :
    negationFault? e s (.neg a, x) = none ↔ (Tie.neg y.name x.name).Passes s := by
  simp [negationFault?, ha, Tie.Passes]

lemma implicationFault?_eq_none_iff {a b : Formula} {x y z : Encoded}
    (ha : e.formulas.get? a = some y) (hb : e.formulas.get? b = some z) :
    implicationFault? e s (.impl a b, x) = none ↔
      (Tie.join .impl y.name z.name x.name).Passes s := by
  simp [implicationFault?, ha, hb, Tie.Passes, and_assoc]

/-- No fault is found in an entry exactly when its tie, if it has one, passes. -/
lemma entry_faultless_iff (he : e.Listed) {entry : Formula × Encoded}
    (hentry : entry ∈ e.formulas.entries) :
    (negationFault? e s entry = none ∧ implicationFault? e s entry = none) ↔
      ∀ t, entry.2.tie = some t → t.Passes s := by
  obtain ⟨f, x⟩ := entry
  cases htie : x.tie with
  | none =>
      have hvar := he.symbol (f, x) hentry htie
      cases f with
      | var y => simp [negationFault?, implicationFault?]
      | _ => cases hvar
  | some t =>
      obtain ⟨hbinds, hname⟩ := he.compound (f, x) hentry t htie
      simp only [Option.some.injEq, forall_eq']
      cases hbinds with
      | neg ha =>
          obtain rfl : _ = x.name := hname
          rw [negationFault?_eq_none_iff ha]
          exact and_iff_left rfl
      | @join c a b y z name ha hb =>
          obtain rfl : name = x.name := hname
          cases c with
          | impl =>
              have hfault := implicationFault?_eq_none_iff (s := s) (x := x) ha hb
              exact ⟨fun hnone => hfault.1 hnone.2, fun hpasses => ⟨rfl, hfault.2 hpasses⟩⟩
          -- neither check looks at the other connectives, and their ties always pass
          | _ => exact iff_of_true ⟨rfl, rfl⟩ trivial

/-- **Nothing is found wrong exactly when all ties pass.** -/
lemma fault?_eq_none_iff (he : e.Listed) :
    fault? e s = none ↔ ∀ t ∈ e.ties, t.Passes s := by
  have hentries : fault? e s = none ↔ ∀ entry ∈ e.formulas.entries,
      negationFault? e s entry = none ∧ implicationFault? e s entry = none := by
    simp only [fault?, Option.orElse_eq_orElse, Option.orElse_eq_or, Option.or_eq_none_iff,
      List.findSome?_eq_none_iff, forall_and]
  rw [hentries, he.ties]
  constructor
  · intro h t ht
    obtain ⟨entry, hentry, htie⟩ := List.mem_filterMap.1 ht
    exact (entry_faultless_iff he hentry).1 (h entry hentry) t htie
  · intro h entry hentry
    refine (entry_faultless_iff he hentry).2 fun t htie => h t ?_
    exact List.mem_filterMap.2 ⟨entry, hentry, htie⟩

end Decoded

/-! ## Decoding the samples for a problem -/

lemma Decoded.verdict_eq_success_iff {axiomsHold goalHolds : Bool} {fault : Option String} :
    verdict axiomsHold goalHolds fault = "证明成功！所有约束满足。" ↔
      (axiomsHold && goalHolds && fault.isNone) = true := by
  cases axiomsHold with
  | false => simp [verdict]
  | true =>
      cases goalHolds with
      | false => simp [verdict]
      | true =>
          cases fault with
          | none => simp [verdict]
          | some reason =>
              refine iff_of_false (fun h => ?_) (by simp)
              have htexts : "证明失败：结构约束违反 - " ++ reason = "证明成功！所有约束满足。" := h
              -- the third character tells failure from success
              have hthird := congrArg (fun text => text.toList[2]?) htexts
              simp at hthird

namespace Problem

section Decode

variable {ε : Type} [LT ε] [DecidableLT ε] {p : Problem} {axioms : List Formula} {goal : Formula}
  {samples : List Sample} {energies : List ε} {d : Decoded ε}

def decode? (p : Problem) (samples : List Sample) (energies : List ε) : Option (Decoded ε) :=
  Decoded.ofSamples? p.encoder (p.axiomBits.map (·.name)) p.goalBit.name samples energies

/-- The axioms and the goal have ones, and all ties pass. -/
structure Accepts (p : Problem) (s : Sample) : Prop where
  bits : ∀ x ∈ p.axiomBits ++ [p.goalBit], s.value x.name = 1
  ties : ∀ t ∈ p.encoder.ties, t.Passes s

lemma ofFormulas_listed : (ofFormulas axioms goal).encoder.Listed :=
  Encoder.Run.listed (Encoder.after_run_language.trans (ofFormulas_found axioms goal).run)

/-- Decoding reads one of the samples, or nothing at all. -/
lemma decode?_cases (hd : p.decode? samples energies = some d) :
    d = .nothing ∨ ∃ s ∈ samples, ∃ place energy,
      d = .ofSample p.encoder (p.axiomBits.map (·.name)) p.goalBit.name samples.length place s
        energy := by
  simp only [decode?, Decoded.ofSamples?] at hd
  split_ifs at hd
  · exact Or.inl (Option.some.inj hd).symm
  · simp only [Option.bind_eq_bind, Option.bind_eq_some_iff] at hd
    obtain ⟨⟨place, energy⟩, -, s, hs, hd⟩ := hd
    exact Or.inr ⟨s, List.mem_of_getElem? hs, place, energy, (Option.some.inj hd).symm⟩

lemma decode?_singleton (p : Problem) (s : Sample) (energy : ε) :
    p.decode? [s] [energy] = some (.ofSample p.encoder (p.axiomBits.map (·.name)) p.goalBit.name 1 0
      s energy) := rfl

omit [LT ε] [DecidableLT ε] in
lemma ofSample_proofHolds_iff (hp : p.encoder.Listed) {s : Sample} {n place : ℕ} {energy : ε} :
    (Decoded.ofSample p.encoder (p.axiomBits.map (·.name)) p.goalBit.name n place s
      energy).proofHolds = true ↔ p.Accepts s := by
  simp only [Decoded.ofSample, List.all_map, Bool.and_eq_true, List.all_eq_true,
    Function.comp_apply, beq_iff_eq, Option.isNone_iff_eq_none, Decoded.fault?_eq_none_iff hp]
  constructor
  · rintro ⟨⟨haxioms, hgoal⟩, hties⟩
    exact ⟨List.forall_mem_append.2 ⟨haxioms, List.forall_mem_singleton.2 hgoal⟩, hties⟩
  · intro h
    obtain ⟨haxioms, hgoal⟩ := List.forall_mem_append.1 h.bits
    exact ⟨⟨haxioms, hgoal _ (List.mem_singleton_self _)⟩, h.ties⟩

/-- The proof is said to hold, in the flag and in words, exactly when the sample that was taken is
acceptable. -/
lemma decode?_accepts (hp : p.encoder.Listed) (hd : p.decode? samples energies = some d) :
    (d.proofHolds = true ↔ p.Accepts d.sample) ∧
      (d.message = "证明成功！所有约束满足。" ↔ d.proofHolds = true) := by
  rcases decode?_cases hd with rfl | ⟨s, hs, place, energy, rfl⟩
  · -- nothing was read: the sample is empty, and in it the goal is zero
    have hzero : (.nothing : Decoded ε).sample.value p.goalBit.name = 0 := rfl
    refine ⟨iff_of_false nofun fun h => ?_, by simp [Decoded.nothing]⟩
    have hone := h.bits p.goalBit (by simp)
    exact absurd (hzero.symm.trans hone) (by decide)
  · exact ⟨ofSample_proofHolds_iff hp, Decoded.verdict_eq_success_iff⟩

lemma decode?_within {A : Set ℤ} (hA : ∀ s ∈ samples, s.Within A)
    (hd : p.decode? samples energies = some d) : d.sample.Within A := by
  rcases decode?_cases hd with rfl | ⟨s, hs, place, energy, rfl⟩
  · exact nofun
  · exact hA s hs

variable {K : Type} [Field K] [LinearOrder K] [IsStrictOrderedRing K]

/-- **A proof is said to hold exactly where axioms and goal are one and every tie costs nothing or
is overlooked**, for every reply of zero-one samples. -/
theorem accepts_free_or_overlooked (axioms : List Formula) (goal : Formula)
    (hbinary : ∀ s ∈ samples, s.Binary)
    (hd : (ofFormulas axioms goal).decode? samples energies = some d) :
    (d.message = "证明成功！所有约束满足。" ↔ d.proofHolds = true) ∧
    (d.proofHolds = true ↔
      (∀ x ∈ (ofFormulas axioms goal).axiomBits ++ [(ofFormulas axioms goal).goalBit],
        d.sample.value x.name = 1) ∧
      ∀ t ∈ (ofFormulas axioms goal).encoder.ties,
        (t.energy : Energy K).valueAt d.sample = 0 ∨ t.Overlooked d.sample.point) := by
  obtain ⟨haccepts, hmessage⟩ := decode?_accepts ofFormulas_listed hd
  have hs : d.sample.Binary := decode?_within hbinary hd
  have hties : ∀ t : Tie, t.Passes d.sample ↔
      (t.energy : Energy K).valueAt d.sample = 0 ∨ t.Overlooked d.sample.point := by
    intro t
    rw [Energy.valueAt_eq_cost hs, Tie.cost_eq_zero_iff, Tie.passes_iff hs]
  refine ⟨hmessage, haccepts.trans ?_⟩
  simp only [← hties]
  exact ⟨fun h => ⟨h.bits, h.ties⟩, fun h => ⟨h.1, h.2⟩⟩

end Decode

/-- Of two samples the second one is taken, in which the bit of `P → Q` is zero although `P` is. -/
theorem accepts_free_or_overlooked_implication :
    let p := ofFormulas [.disj (.var "P") (.var "Q"), .neg (.impl (.var "P") (.var "Q"))] (.var "Q")
    let samples : List Sample :=
      [⟨[("P", 1), ("Q", 0)]⟩,
        ⟨[("Or_P_Q_1", 1), ("P", 0), ("Q", 1), ("Imp_P_Q_2", 0), ("Not_Imp_P_Q_2_3", 1)]⟩]
    (∀ s ∈ samples, s.Binary) ∧ ∃ d, p.decode? samples [7, 4] = some d ∧ d.proofHolds = true ∧
      ∀ t ∈ p.encoder.ties,
        (t.energy : Energy ℚ).valueAt d.sample = 0 ∨ t.Overlooked d.sample.point := by
  intro p samples
  have hbinary : ∀ s ∈ samples, s.Binary := by decide
  have hdecode : p.decode? samples [7, 4] = some _ := rfl
  refine ⟨hbinary, _, hdecode, rfl, ?_⟩
  exact ((accepts_free_or_overlooked _ _ hbinary hdecode).2.1 rfl).2

/-- The conjunction `P ∧ Q` is one, `Q` is zero, and the proof is said to hold. -/
theorem accepts_broken_conjunction :
    let p := ofFormulas [.conj (.var "P") (.var "Q")] (.var "P")
    let s : Sample := ⟨[("And_P_Q_1", 1), ("P", 1), ("Q", 0)]⟩
    s.Binary ∧ ∃ d, p.decode? [s] [30] = some d ∧ d.sample = s ∧ d.proofHolds = true ∧
      ∃ t ∈ p.encoder.ties, (t.energy : Energy ℚ).valueAt d.sample = 1 := by
  intro p s
  have hs : s.Binary := by decide
  refine ⟨hs, _, rfl, rfl, rfl, .join .conj "P" "Q" "And_P_Q_1", by decide, ?_⟩
  have hp : s.point "P" = true := rfl
  have hq : s.point "Q" = false := rfl
  have hand : s.point "And_P_Q_1" = true := rfl
  show Energy.valueAt s _ = 1
  rw [Energy.valueAt_eq_cost hs]
  norm_num [Tie.energy, hp, hq, hand]

end Problem

end AnnealProver
