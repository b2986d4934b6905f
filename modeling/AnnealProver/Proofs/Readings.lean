import AnnealProver.Proofs.Decoding

/-!
# What an accepted sample says about the formulas

An accepted sample gives a number to every formula that has a bit, and decoding compares these
numbers only loosely.  A **loose reading** is a number for every formula that passes these
comparisons.  Truth values do (`readable_of_model`), but a reading need not follow truth tables: it
may call a disjunction one whose sides are zero, and an implication zero whatever its sides are.

Samples and readings come to the same.  From an accepted sample a reading is read off
(`Encoder.reading_loose`), and a reading is shown in bits by a sample that is accepted
(`Encoder.passes_of_shown`).  So some sample is accepted exactly when the axioms and the goal can be
read as ones together (`Problem.readable_of_accepts`, `Problem.exists_accepts_of_readable`).
-/

namespace AnnealProver

/-! ## Loose readings -/

/-- Numbers for formulas that go together as far as decoding looks: a negation and its operand add
up to one, and no implication that is one leads from one to zero. -/
structure LooseReading (r : Formula → ℤ) : Prop where
  alike : ∀ f g, f.alike g = true → r f = r g
  neg : ∀ f, r (.neg f) + r f = 1
  impl : ∀ f g, ¬ (r (.impl f g) = 1 ∧ r f = 1 ∧ r g = 0)

/-- Some loose reading with values in `A` makes all the formulas one. -/
def Readable (A : Set ℤ) (fs : List Formula) : Prop :=
  ∃ r, LooseReading r ∧ (∀ f, r f ∈ A) ∧ ∀ f ∈ fs, r f = 1

/-- What can be true together can be read as ones together: truth values are a loose reading. -/
lemma readable_of_model {A : Set ℤ} (hzero : 0 ∈ A) (hflip : ∀ n ∈ A, 1 - n ∈ A)
    {fs : List Formula} {v : Valuation} (hv : ∀ f ∈ fs, f.eval v = true) : Readable A fs := by
  refine ⟨fun f => if f.eval v then 1 else 0, ⟨fun f g hfg => ?_, fun f => ?_, fun f g => ?_⟩,
    fun f => ?_, fun f hf => ?_⟩
  · rw [Formula.eval_eq_of_alike hfg]
  · cases h : f.eval v <;> simp [Formula.eval, h]
  · cases hf : f.eval v <;> cases hg : g.eval v <;> simp [Formula.eval, hf, hg]
  · dsimp only
    split_ifs
    · exact hflip 0 hzero
    · exact hzero
  · exact if_pos (hv f hf)

namespace Encoder

variable {e : Encoder} {s : Sample} {a b f g : Formula} {x : Encoded} {r : Formula → ℤ}

/-! ## From a sample to a reading -/

/-- A compound formula that has a bit has it with a tie. -/
lemma Listed.exists_tie (he : e.Listed) (hf : f.isVar = false) (hx : e.formulas.get? f = some x) :
    ∃ g t, g.alike f = true ∧ e.Binds g t ∧ t ∈ e.ties ∧ t.name = x.name := by
  rw [Table.get?, Option.map_eq_some_iff] at hx
  obtain ⟨entry, hfind, rfl⟩ := hx
  have hentry := List.mem_of_find?_eq_some hfind
  have halike : entry.1.alike f = true := by simpa using List.find?_some hfind
  cases htie : entry.2.tie with
  | none =>
      have hvar := he.symbol entry hentry htie
      rw [Formula.isVar_eq_of_alike halike, hf] at hvar
      cases hvar
  | some t =>
      obtain ⟨hbinds, hname⟩ := he.compound entry hentry t htie
      refine ⟨entry.1, t, halike, hbinds, ?_, hname⟩
      rw [he.ties]
      exact List.mem_filterMap.2 ⟨entry, hentry, htie⟩

lemma Listed.exists_neg_tie (he : e.Listed) (hx : e.formulas.get? (.neg a) = some x) :
    ∃ y, e.formulas.get? a = some y ∧ .neg y.name x.name ∈ e.ties := by
  obtain ⟨g, t, halike, hbinds, ht, hname⟩ := he.exists_tie rfl hx
  cases g with
  | neg b =>
      obtain ⟨y, hy, htie⟩ := hbinds.exists_of_neg
      have hab : b.alike a = true := halike
      rw [FormulaTable.get?_congr hab] at hy
      rw [htie, hname] at ht
      exact ⟨y, hy, ht⟩
  | _ => cases halike

lemma Listed.exists_impl_tie (he : e.Listed) (hx : e.formulas.get? (.impl a b) = some x) :
    ∃ y z, e.formulas.get? a = some y ∧ e.formulas.get? b = some z ∧
      .join .impl y.name z.name x.name ∈ e.ties := by
  obtain ⟨g, t, halike, hbinds, ht, hname⟩ := he.exists_tie rfl hx
  cases g with
  | impl c d =>
      rw [Formula.alike, Bool.and_eq_true] at halike
      obtain ⟨y, z, hy, hz, htie⟩ := hbinds.exists_of_impl
      rw [FormulaTable.get?_congr halike.1] at hy
      rw [FormulaTable.get?_congr halike.2] at hz
      rw [htie, hname] at ht
      exact ⟨y, z, hy, hz, ht⟩
  | _ => cases halike

/-- The numbers that a sample gives to formulas: the value of the bit where there is one, and where
there is none zero, except that a negation makes up for its operand. -/
def reading (e : Encoder) (s : Sample) (f : Formula) : ℤ :=
  match e.formulas.get? f with
  | some x => s.value x.name
  | none =>
    match f with
    | .neg a => 1 - reading e s a
    | _ => 0

lemma reading_of_some (hx : e.formulas.get? f = some x) : e.reading s f = s.value x.name := by
  cases f <;> simp only [reading, hx]

lemma reading_neg_of_none (hx : e.formulas.get? (.neg a) = none) :
    e.reading s (.neg a) = 1 - e.reading s a := by
  simp only [reading, hx]

lemma reading_of_not_neg (hf : ∀ a, f ≠ .neg a) :
    e.reading s f = ((e.formulas.get? f).map fun x => s.value x.name).getD 0 := by
  cases hx : e.formulas.get? f with
  | some x => exact reading_of_some hx
  | none =>
      cases f with
      | neg a => exact absurd rfl (hf a)
      | _ => simp only [reading, hx, Option.map_none, Option.getD_none]

lemma reading_eq_of_alike (h : f.alike g = true) : e.reading s f = e.reading s g := by
  have hget := FormulaTable.get?_congr (t := e.formulas) h
  induction f generalizing g with
  | neg a ih =>
      cases g with
      | neg b =>
          cases hx : e.formulas.get? (.neg a) with
          | some x => rw [reading_of_some hx, reading_of_some (hget.symm.trans hx)]
          | none =>
              have hab : a.alike b = true := h
              rw [reading_neg_of_none hx, reading_neg_of_none (hget.symm.trans hx),
                ih hab (FormulaTable.get?_congr hab)]
      | _ => cases h
  | _ =>
      -- what is not a negation is read from the table alone
      have hg : ∀ b, g ≠ .neg b := by
        rintro b rfl
        cases h
      rw [reading_of_not_neg hg, reading_of_not_neg, hget]
      exact nofun

/-- **The numbers of a sample are a loose reading** if all ties pass. -/
lemma reading_loose (he : e.Listed) (hties : ∀ t ∈ e.ties, t.Passes s) :
    LooseReading (e.reading s) where
  alike _ _ := reading_eq_of_alike
  neg a := by
    cases hx : e.formulas.get? (.neg a) with
    | none => rw [reading_neg_of_none hx, sub_add_cancel]
    | some x =>
        obtain ⟨y, hy, ht⟩ := he.exists_neg_tie hx
        rw [reading_of_some hx, reading_of_some hy]
        exact hties _ ht
  impl a b := by
    cases hx : e.formulas.get? (.impl a b) with
    | none =>
        have hzero : e.reading s (.impl a b) = 0 := by simp only [reading, hx]
        rw [hzero]
        exact fun h => absurd h.1 (by decide)
    | some x =>
        obtain ⟨y, z, hy, hz, ht⟩ := he.exists_impl_tie hx
        rw [reading_of_some hx, reading_of_some hy, reading_of_some hz]
        exact hties _ ht

lemma reading_mem {A : Set ℤ} (hs : s.Within A) (hzero : 0 ∈ A) (hflip : ∀ n ∈ A, 1 - n ∈ A)
    (f : Formula) : e.reading s f ∈ A := by
  induction f with
  | neg a ih =>
      cases hx : e.formulas.get? (.neg a) with
      | some x => rw [reading_of_some hx]; exact hs.value_mem hzero _
      | none => rw [reading_neg_of_none hx]; exact hflip _ ih
  | _ =>
      rw [reading_of_not_neg]
      · cases e.formulas.get? _ with
        | none => exact hzero
        | some x => exact hs.value_mem hzero _
      · exact nofun

/-! ## From a reading to a sample -/

/-- Where every bit shows the number of its formula, all ties pass. -/
lemma passes_of_shown (he : e.Listed) (hr : LooseReading r)
    (hshown : ∀ f x, e.formulas.get? f = some x → s.value x.name = r f) :
    ∀ t ∈ e.ties, t.Passes s := by
  intro t ht
  rw [he.ties] at ht
  obtain ⟨entry, hentry, htie⟩ := List.mem_filterMap.1 ht
  have hself := hshown _ _ (he.found entry hentry)
  obtain ⟨hbinds, hname⟩ := he.compound entry hentry t htie
  rw [← hname] at hself
  -- the cases of `Binds` determine the formula, so it must not be a projection of the entry
  generalize entry.1 = f at hbinds hself
  cases hbinds with
  | @neg a y name ha =>
      have hsum := hr.neg a
      rw [← hself, ← hshown _ _ ha] at hsum
      exact hsum
  | @join c a b y z name ha hb =>
      cases c with
      | impl =>
          have himpl := hr.impl a b
          rw [← hshown _ _ ha, ← hshown _ _ hb] at himpl
          rintro ⟨h1, h2, h3⟩
          exact himpl ⟨hself.symm.trans h1, h2, h3⟩
      | _ => trivial

end Encoder

/-- The sample with the values of a point at some names. -/
def Sample.ofPoint (names : List String) (point : String → ℤ) : Sample :=
  ⟨names.map fun n => (n, point n)⟩

lemma Sample.value_ofPoint {names : List String} {point : String → ℤ} {n : String}
    (hn : n ∈ names) : (ofPoint names point).value n = point n := by
  rw [value, Table.getD, Table.get?]
  cases hfind : (ofPoint names point).entries.find? fun entry => entry.1 == n with
  | none =>
      have hentry : (n, point n) ∈ (ofPoint names point).entries := List.mem_map_of_mem hn
      simpa using List.find?_eq_none.1 hfind _ hentry
  | some entry =>
      obtain ⟨m, -, rfl⟩ := List.mem_map.1 (List.mem_of_find?_eq_some hfind)
      have hname : m = n := by simpa using List.find?_some hfind
      rw [← hname]
      rfl

namespace Problem

variable {axioms : List Formula} {goal f : Formula} {x : Encoded} {s : Sample} {A : Set ℤ}

/-! ## Axioms and goal -/

lemma exists_bit (hf : f ∈ axioms ++ [goal]) :
    ∃ x ∈ (ofFormulas axioms goal).axiomBits ++ [(ofFormulas axioms goal).goalBit],
      (ofFormulas axioms goal).encoder.formulas.get? f = some x := by
  obtain ⟨x, hx, hfound⟩ := Encoder.exists_mem_encodeAll (e := {}) hf
  rw [ofFormulas_bits]
  exact ⟨x, hx, (ofFormulas_found axioms goal).run.get?_of_some hfound⟩

lemma exists_formula
    (hx : x ∈ (ofFormulas axioms goal).axiomBits ++ [(ofFormulas axioms goal).goalBit]) :
    ∃ f ∈ axioms ++ [goal], (ofFormulas axioms goal).encoder.formulas.get? f = some x := by
  rw [ofFormulas_bits] at hx
  obtain ⟨f, hf, hfound⟩ := Encoder.exists_of_mem_encodeAll hx
  exact ⟨f, hf, (ofFormulas_found axioms goal).run.get?_of_some hfound⟩

lemma readable_of_accepts (hs : s.Within A) (hzero : 0 ∈ A) (hflip : ∀ n ∈ A, 1 - n ∈ A)
    (h : (ofFormulas axioms goal).Accepts s) : Readable A (axioms ++ [goal]) := by
  refine ⟨_, Encoder.reading_loose ofFormulas_listed h.ties, Encoder.reading_mem hs hzero hflip, ?_⟩
  intro f hf
  obtain ⟨x, hx, hfound⟩ := exists_bit hf
  rw [Encoder.reading_of_some hfound]
  exact h.bits x hx

/-- The bits are set as in `Run.exists_point`, where the reading takes the place of a valuation. -/
lemma exists_accepts_of_readable
    (hapart : (ofFormulas axioms goal).encoder.Apart (axioms ++ [goal]))
    (h : Readable A (axioms ++ [goal])) :
    ∃ s, s.Within A ∧ (ofFormulas axioms goal).Accepts s := by
  obtain ⟨r, hr, hA, hones⟩ := h
  set e := (ofFormulas axioms goal).encoder
  have he : e.Listed := ofFormulas_listed
  have hlate := (ofFormulas_found axioms goal).run
  have hsymbols := hapart.ne_of_mem_language
  rw [hlate.lead_eq.trans Encoder.after_lead] at hsymbols
  obtain ⟨point, -, hpoint⟩ := Encoder.Run.exists_point (Encoder.after_run_language.trans hlate)
    hsymbols r hr.alike
  let s := Sample.ofPoint (e.formulas.entries.map (·.2.name)) point
  have hshown : ∀ f x, e.formulas.get? f = some x → s.value x.name = r f := by
    intro f x hx
    rw [← hpoint f x hx]
    refine Sample.value_ofPoint ?_
    obtain ⟨entry, hfind, rfl⟩ := Option.map_eq_some_iff.1 hx
    exact List.mem_map_of_mem (List.mem_of_find?_eq_some hfind)
  refine ⟨s, ?_, ?_, Encoder.passes_of_shown he hr hshown⟩
  · intro value hvalue
    obtain ⟨n, hn, rfl⟩ := List.mem_map.1 hvalue
    obtain ⟨entry, hentry, rfl⟩ := List.mem_map.1 hn
    exact hpoint _ _ (he.found entry hentry) ▸ hA entry.1
  · intro x hx
    obtain ⟨f, hf, hfound⟩ := exists_formula hx
    rw [hshown f x hfound]
    exact hones f hf

variable {ε : Type} [LT ε] [DecidableLT ε]

lemma readable_of_decoded (hzero : 0 ∈ A) (hflip : ∀ n ∈ A, 1 - n ∈ A) {samples : List Sample}
    {energies : List ε} {d : Decoded ε} (hA : ∀ s ∈ samples, s.Within A)
    (hd : (ofFormulas axioms goal).decode? samples energies = some d)
    (hholds : d.proofHolds = true) : Readable A (axioms ++ [goal]) :=
  readable_of_accepts (decode?_within hA hd) hzero hflip
    ((decode?_accepts ofFormulas_listed hd).1.1 hholds)

lemma exists_decoded_of_readable
    (hapart : (ofFormulas axioms goal).encoder.Apart (axioms ++ [goal]))
    (h : Readable A (axioms ++ [goal])) (energy : ε) :
    ∃ s d, s.Within A ∧ (ofFormulas axioms goal).decode? [s] [energy] = some d ∧
      d.proofHolds = true := by
  obtain ⟨s, hs, haccepts⟩ := exists_accepts_of_readable hapart h
  exact ⟨s, _, hs, decode?_singleton _ s energy,
    (ofSample_proofHolds_iff ofFormulas_listed).2 haccepts⟩

end Problem

end AnnealProver
