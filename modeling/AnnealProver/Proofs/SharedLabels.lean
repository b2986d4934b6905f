import AnnealProver.Energy.LabelEncoder
import AnnealProver.Proofs.Costs

/-!
# Bits that formulas share by name

The encoder with telling names looks up a formula by the name of its bit.  Names leave out
parentheses, so formulas of different meaning can have the same one, and then the bit is tied for
the formula that came first and handed out for the other.

**Order.**  A bit is entered in the table before its parts are encoded, and is tied after them.
That no tie comes to depend on a bit tied later is a matter of names: the name of a formula is not
the name of any of its parts (`Formula.labelName_neg_ne`, `Formula.labelName_apply_ne`).  Hence the
ties can be **settled** one after the other, and every valuation of the bits that are not tied
extends to exactly one point at which all ties hold (`Tie.settle`).

**Meaning.**  At such a point every bit that was handed out shows the truth value of **each**
formula it is named after exactly if formulas that share a bit are equivalent.  One half is the
uniqueness of the point: the truth values of the formulas in the table make up a point at which all
ties hold.
-/

namespace AnnealProver

/-! ## Ties in order -/

namespace Tie

variable {t : Tie} {ties : List Tie} {bits bits' : Valuation} {n : String}

/-- The truth value that the bit is to have. -/
def truth (bits : Valuation) : Tie → Bool
  | neg operand _ => !bits operand
  | join c left right _ => c.truth (bits left) (bits right)

lemma holds_iff : t.Holds bits ↔ bits t.name = t.truth bits := by
  cases t <;> rfl

lemma truth_congr (h : ∀ n ∈ t.operands, bits n = bits' n) : t.truth bits = t.truth bits' := by
  cases t with
  | neg operand name => simp [truth, h operand (by simp [operands])]
  | join c left right name =>
      simp [truth, h left (by simp [operands]), h right (by simp [operands])]

lemma cost_squareEnergy_eq_zero_iff {K : Type} [Field K] [LinearOrder K] [IsStrictOrderedRing K] :
    (t.squareEnergy : Energy K).cost bits = 0 ↔ t.Holds bits := by
  cases t with
  | neg operand name => exact cost_eq_zero_iff (t := .neg operand name)
  | join c left right name =>
      cases c with
      | conj =>
          cases hx : bits left <;> cases hy : bits right <;> cases hn : bits name <;>
            norm_num [squareEnergy, Holds, Connective.truth, hx, hy, hn]
      | disj => exact cost_eq_zero_iff (t := .join .disj left right name)
      | impl => exact cost_eq_zero_iff (t := .join .impl left right name)
      | iff => exact cost_eq_zero_iff (t := .join .iff left right name)

/-- Gives the tied bits the truth values that they are to have, one after the other. -/
def settle (ties : List Tie) (bits : Valuation) : Valuation :=
  ties.foldl (fun bits t => Function.update bits t.name (t.truth bits)) bits

/-- No tie is about a bit that is tied later. -/
def Orderly (ties : List Tie) : Prop :=
  ties.Pairwise (fun t u => u.name ∉ t.name :: t.operands) ∧ ∀ t ∈ ties, t.name ∉ t.operands

lemma orderly_cons : Orderly (t :: ties) ↔
    (∀ u ∈ ties, u.name ∉ t.name :: t.operands) ∧ t.name ∉ t.operands ∧ Orderly ties := by
  simp only [Orderly, List.pairwise_cons, List.forall_mem_cons]
  tauto

lemma orderly_concat : Orderly (ties ++ [t]) ↔
    Orderly ties ∧ (∀ u ∈ ties, t.name ∉ u.name :: u.operands) ∧ t.name ∉ t.operands := by
  simp only [Orderly, List.pairwise_append, List.forall_mem_append, List.forall_mem_singleton,
    List.pairwise_singleton]
  tauto

lemma settle_of_ne (h : ∀ t ∈ ties, t.name ≠ n) : settle ties bits n = bits n := by
  induction ties generalizing bits with
  | nil => rfl
  | cons t ties ih =>
      rw [List.forall_mem_cons] at h
      exact (ih h.2).trans (Function.update_of_ne h.1.symm _ _)

/-- All ties hold once they have been settled. -/
lemma holds_settle (h : Orderly ties) : ∀ t ∈ ties, t.Holds (settle ties bits) := by
  induction ties generalizing bits with
  | nil => simp
  | cons t ties ih =>
      obtain ⟨hlater, hself, hrest⟩ := orderly_cons.1 h
      refine List.forall_mem_cons.2 ⟨?_, ih hrest⟩
      -- what is settled later is none of the bits of this tie
      have hkept : ∀ n ∈ t.name :: t.operands,
          settle (t :: ties) bits n = Function.update bits t.name (t.truth bits) n :=
        fun n hn => settle_of_ne fun u hu heq => hlater u hu (heq ▸ hn)
      have htruth : t.truth (settle (t :: ties) bits) = t.truth bits := by
        refine truth_congr fun n hn => ?_
        rw [hkept n (List.mem_cons_of_mem _ hn), Function.update_of_ne]
        rintro rfl
        exact hself hn
      rw [holds_iff, htruth, hkept _ List.mem_cons_self, Function.update_self]

lemma settle_eq_self (h : ∀ t ∈ ties, t.Holds bits) : settle ties bits = bits := by
  induction ties with
  | nil => rfl
  | cons t ties ih =>
      rw [List.forall_mem_cons] at h
      have hstep : Function.update bits t.name (t.truth bits) = bits := by
        rw [← holds_iff.1 h.1, Function.update_eq_self]
      rw [settle, List.foldl_cons, hstep]
      exact ih h.2

/-- The bits that are not tied determine what comes of settling. -/
lemma settle_congr (h : Orderly ties) (hsame : ∀ n, (∀ t ∈ ties, t.name ≠ n) → bits n = bits' n) :
    settle ties bits = settle ties bits' := by
  induction ties generalizing bits bits' with
  | nil => exact funext fun n => hsame n (by simp)
  | cons t ties ih =>
      obtain ⟨hlater, hself, hrest⟩ := orderly_cons.1 h
      have htruth : t.truth bits = t.truth bits' := by
        refine truth_congr fun n hn => hsame n (List.forall_mem_cons.2 ⟨?_, fun u hu => ?_⟩)
        · rintro rfl
          exact hself hn
        · rintro rfl
          exact hlater u hu (List.mem_cons_of_mem _ hn)
      refine ih hrest fun n hn => ?_
      show Function.update bits t.name (t.truth bits) n =
        Function.update bits' t.name (t.truth bits') n
      by_cases heq : t.name = n
      · rw [heq, htruth, Function.update_self, Function.update_self]
      · rw [Function.update_of_ne (Ne.symm heq), Function.update_of_ne (Ne.symm heq)]
        exact hsame n (List.forall_mem_cons.2 ⟨heq, hn⟩)

/-- Two points at which all ties hold are the same if they agree on the bits that are not tied. -/
lemma eq_of_holds (h : Orderly ties) (hbits : ∀ t ∈ ties, t.Holds bits)
    (hbits' : ∀ t ∈ ties, t.Holds bits')
    (hsame : ∀ n, (∀ t ∈ ties, t.name ≠ n) → bits n = bits' n) : bits = bits' := by
  rw [← settle_eq_self hbits, settle_congr h hsame, settle_eq_self hbits']

end Tie

/-! ## Names -/

namespace Formula

variable {f g a b : Formula} {c : Connective} {lead : String} {x : String × Formula}

/-- No equivalence occurs. -/
inductive IffFree : Formula → Prop
  | var (x : String) : IffFree (.var x)
  | neg {a : Formula} (ha : IffFree a) : IffFree (.neg a)
  | join {c : Connective} {a b : Formula} (hc : c ≠ .iff) (ha : IffFree a) (hb : IffFree b) :
      IffFree (c.apply a b)

/-- The name that the bit of a formula has. -/
def bitName (lead : String) : Formula → String
  | var x => x
  | f => f.labelName lead

/-- The formula and its parts, each with the name that its bit has. -/
def namings (lead : String) : Formula → List (String × Formula)
  | var x => [(x, var x)]
  | neg a => ((neg a).labelName lead, neg a) :: a.namings ""
  | conj a b => ((conj a b).labelName lead, conj a b) :: (a.namings lead ++ b.namings lead)
  | disj a b => ((disj a b).labelName lead, disj a b) :: (a.namings lead ++ b.namings lead)
  | impl a b => ((impl a b).labelName lead, impl a b) :: (a.namings lead ++ b.namings lead)
  | iff a b => ((iff a b).labelName lead, iff a b) :: (a.namings lead ++ b.namings lead)

lemma bitName_neg : (neg a).bitName lead = (neg a).labelName lead := rfl

lemma bitName_apply : (c.apply a b).bitName lead = (c.apply a b).labelName lead := by
  cases c <;> rfl

lemma namings_apply : (c.apply a b).namings lead =
    ((c.apply a b).labelName lead, c.apply a b) :: (a.namings lead ++ b.namings lead) := by
  cases c <;> rfl

lemma self_mem_namings : (f.bitName lead, f) ∈ f.namings lead := by
  cases f <;> exact List.mem_cons_self

lemma mem_subformulas_of_mem_namings (hx : x ∈ f.namings lead) : x.2 ∈ f.subformulas := by
  induction f using connectiveInduction generalizing lead with
  | var y =>
      rw [List.mem_singleton.1 hx]
      exact self_mem_subformulas _
  | neg a ih =>
      rcases List.mem_cons.1 hx with rfl | hx
      · exact self_mem_subformulas _
      · exact List.mem_cons_of_mem _ (ih hx)
  | join c a b iha ihb =>
      rw [namings_apply, List.mem_cons, List.mem_append] at hx
      rw [subformulas_apply, List.mem_cons, List.mem_append]
      rcases hx with rfl | hx | hx
      · exact Or.inl rfl
      · exact Or.inr (Or.inl (iha hx))
      · exact Or.inr (Or.inr (ihb hx))

lemma labelName_neg : (neg a).labelName lead = lead ++ "Not_" ++ a.label := rfl

lemma labelName_apply (hc : c ≠ .iff) : (c.apply a b).labelName lead =
    lead ++ c.stem ++ "_" ++ a.label ++ "_" ++ b.label := by
  cases c with
  | iff => contradiction
  | conj | disj | impl =>
      simp only [Connective.apply, Connective.stem, labelName, String.append_assoc]
      rfl

lemma length_label_apply (hc : c ≠ .iff) :
    (c.apply a b).label.length = a.label.length + 1 + b.label.length := by
  cases c with
  | iff => contradiction
  | conj | disj | impl =>
      simp only [Connective.apply, label, String.length_append]
      rfl

lemma length_label_neg : (neg a).label.length = 1 + a.label.length := by
  rw [label, String.length_append]
  rfl

lemma mem_namings_apply : x ∈ (c.apply a b).namings lead ↔
    x = ((c.apply a b).labelName lead, c.apply a b) ∨ x ∈ a.namings lead ∨ x ∈ b.namings lead := by
  rw [namings_apply, List.mem_cons, List.mem_append]

lemma underscore_mem_of_mem_namings (hf : f.IffFree) (hx : x ∈ f.namings lead)
    (hcompound : x.2.isVar = false) : '_' ∈ x.1.toList := by
  induction hf generalizing lead with
  | var y =>
      rw [List.mem_singleton.1 hx] at hcompound
      cases hcompound
  | neg ha ih =>
      rcases List.mem_cons.1 hx with rfl | hx
      · simp [labelName_neg]
      · exact ih hx
  | join hc ha hb iha ihb =>
      rcases mem_namings_apply.1 hx with rfl | hx | hx
      · simp [labelName_apply hc]
      · exact iha hx
      · exact ihb hx

lemma length_stem (hc : c ≠ .iff) : 2 ≤ c.stem.length ∧ c.stem.length ≤ 3 := by
  cases c with
  | iff => contradiction
  | conj | disj | impl => decide

lemma length_labelName_neg :
    ((neg a).labelName lead).length = lead.length + 4 + a.label.length := by
  rw [labelName_neg, String.length_append, String.length_append]
  rfl

lemma length_labelName_apply (hc : c ≠ .iff) : ((c.apply a b).labelName lead).length =
    lead.length + c.stem.length + 1 + (c.apply a b).label.length := by
  have hmark : "_".length = 1 := rfl
  rw [labelName_apply hc, length_label_apply hc]
  simp only [String.length_append, hmark]
  omega

lemma length_naming_le (hf : f.IffFree) (hx : x ∈ f.namings lead) :
    x.1.length ≤ lead.length + 4 + f.label.length := by
  induction hf generalizing lead with
  | var y =>
      rw [List.mem_singleton.1 hx]
      simp only [label]
      omega
  | neg ha ih =>
      rw [length_label_neg]
      rcases List.mem_cons.1 hx with rfl | hx
      · rw [length_labelName_neg]
        omega
      · have := ih hx
        rw [String.length_empty] at this
        omega
  | join hc ha hb iha ihb =>
      rcases mem_namings_apply.1 hx with rfl | hx | hx
      · have := length_stem hc
        rw [length_labelName_apply hc]
        omega
      · have := iha hx
        rw [length_label_apply hc]
        omega
      · have := ihb hx
        rw [length_label_apply hc]
        omega

/-- The parts of a formula have shorter names than is possible for the formula itself. -/
lemma naming_eq_or_shorter (hf : f.IffFree) (hx : x ∈ f.namings lead) :
    x = (f.bitName lead, f) ∨ x.1.length < lead.length + 4 + f.label.length := by
  cases hf with
  | var y => exact Or.inl (List.mem_singleton.1 hx)
  | neg ha =>
      rcases List.mem_cons.1 hx with rfl | hx
      · exact Or.inl rfl
      · have := length_naming_le ha hx
        rw [String.length_empty] at this
        rw [length_label_neg]
        omega
  | join hc ha hb =>
      rw [length_label_apply hc, bitName_apply]
      rcases mem_namings_apply.1 hx with rfl | hx | hx
      · exact Or.inl rfl
      · have := length_naming_le ha hx
        omega
      · have := length_naming_le hb hx
        omega

/-- The first letter tells which connective a name begins with. -/
lemma stem_injective {c' : Connective} {r r' : String} (hc : c ≠ .iff) (hc' : c' ≠ .iff)
    (h : c.stem ++ r = c'.stem ++ r') : c = c' := by
  have hfirst := congrArg (·.toList.head?) h
  cases c <;> cases c' <;> first | rfl | contradiction | simp [Connective.stem] at hfirst

lemma stem_append_ne {r r' : String} (hc : c ≠ .iff) : c.stem ++ r ≠ "Not_" ++ r' := by
  intro h
  have hfirst := congrArg (·.toList.head?) h
  cases c <;> first | contradiction | simp [Connective.stem] at hfirst

/-- A negation is not named like a part of it. -/
lemma labelName_neg_ne (ha : a.IffFree) (hx : x ∈ a.namings "") : x.1 ≠ (neg a).labelName lead := by
  intro heq
  have hlength := congrArg String.length heq
  rw [length_labelName_neg] at hlength
  rcases naming_eq_or_shorter ha hx with rfl | hshorter
  · cases ha with
    | var y =>
        simp only [bitName, label] at hlength
        omega
    | neg ha =>
        rw [bitName_neg, length_labelName_neg, String.length_empty, length_label_neg] at hlength
        omega
    | join hc ha hb =>
        -- the lengths can only agree without a lead, and then the first letters do not
        have hstem := length_stem hc
        rw [bitName_apply, length_labelName_apply hc, String.length_empty] at hlength
        have hlead : lead = "" := String.length_eq_zero_iff.1 (by omega)
        rw [hlead, bitName_apply, labelName_apply hc, labelName_neg] at heq
        simp only [String.empty_append, String.append_assoc] at heq
        exact stem_append_ne hc heq
  · rw [String.length_empty] at hshorter
    omega

/-- No other formula is named like a part of it. -/
lemma labelName_apply_ne (hc : c ≠ .iff) (hg : g.IffFree)
    (hpart : g.label.length < (c.apply a b).label.length) (hx : x ∈ g.namings lead) :
    x.1 ≠ (c.apply a b).labelName lead := by
  intro heq
  have hlength := congrArg String.length heq
  have hstem := length_stem hc
  rw [length_labelName_apply hc] at hlength
  rcases naming_eq_or_shorter hg hx with rfl | hshorter
  · cases hg with
    | var y =>
        simp only [bitName, label] at hlength hpart
        omega
    | neg hg =>
        rw [bitName_neg, length_labelName_neg] at hlength
        rw [length_label_neg] at hpart
        omega
    | join hc' ha hb =>
        rw [bitName_apply, length_labelName_apply hc'] at hlength
        rw [bitName_apply, labelName_apply hc', labelName_apply hc] at heq
        simp only [String.append_assoc, String.append_right_inj] at heq
        obtain rfl := stem_injective hc' hc heq
        omega
  · omega

end Formula

/-! ## What encoding leaves behind -/

namespace LabelEncoder

variable {e : LabelEncoder} {f a b : Formula} {c : Connective} {t : Tie} {lead name : String}
  {R : List (String × Formula)} {pending : List String}

lemma mem_bits_iff {n : String} : n ∈ e.bits ↔ ∃ g, (n, g) ∈ e.formulas.entries := by
  simp [bits, Table.keys]

lemma contains_iff {n : String} : e.formulas.contains n = true ↔ n ∈ e.bits := by
  simp [bits, Table.keys, Table.contains]

lemma entries_keep (hnew : e.formulas.contains name = false) :
    (e.keep name f).formulas.entries = e.formulas.entries ++ [(name, f)] := by
  simp [keep, Table.insert, hnew]

lemma encode_fst : (e.encode lead f).1 = f.bitName lead := by
  cases f with
  | var x => rfl
  | neg a | conj a b | disj a b | impl a b =>
      rw [encode]
      split_ifs <;> rfl
  | iff a b => rfl

lemma encode_known (hf : f.isVar = false)
    (hknown : e.formulas.contains (f.labelName lead) = true) : (e.encode lead f).2 = e := by
  cases f <;> simp_all [encode, Formula.isVar]

lemma encode_neg (hnew : e.formulas.contains ((Formula.neg a).labelName lead) = false) :
    (e.encode lead (.neg a)).2 =
      ((e.keep ((Formula.neg a).labelName lead) (.neg a)).encode "" a).2.addTie
        (.neg (a.bitName "") ((Formula.neg a).labelName lead)) := by
  simp [encode, hnew, encode_fst]

lemma encode_apply (hc : c ≠ .iff)
    (hnew : e.formulas.contains ((c.apply a b).labelName lead) = false) :
    (e.encode lead (c.apply a b)).2 =
      (((e.keep ((c.apply a b).labelName lead) (c.apply a b)).encode lead a).2.encode lead
        b).2.addTie (.join c (a.bitName lead) (b.bitName lead) ((c.apply a b).labelName lead)) := by
  cases c with
  | iff => contradiction
  | conj | disj | impl => simp_all [Connective.apply, encode, encode_fst]

/-- The tie binds the bit of the formula to bits that are named after its parts. -/
inductive Binds (R : List (String × Formula)) (names : List String) : Formula → Tie → Prop
  | neg {a : Formula} {operand name : String} (ha : (operand, a) ∈ R) (hin : operand ∈ names) :
      Binds R names (.neg a) (.neg operand name)
  | join {c : Connective} {a b : Formula} {left right name : String} (ha : (left, a) ∈ R)
      (hb : (right, b) ∈ R) (hleft : left ∈ names) (hright : right ∈ names) :
      Binds R names (c.apply a b) (.join c left right name)

lemma Binds.mono {names names' : List String} (h : Binds R names f t) (hnames : names ⊆ names') :
    Binds R names' f t := by
  cases h with
  | neg ha hin => exact .neg ha (hnames hin)
  | join ha hb hleft hright => exact .join ha hb (hnames hleft) (hnames hright)

lemma Binds.isVar_eq_false {names : List String} (h : Binds R names f t) : f.isVar = false := by
  cases h with
  | neg ha hin => rfl
  | @join c a b left right name ha hb hleft hright => cases c <;> rfl

lemma Binds.operands_subset {names : List String} (h : Binds R names f t) : t.operands ⊆ names := by
  cases h with
  | neg ha hin => simpa [Tie.operands] using hin
  | join ha hb hleft hright => simpa [Tie.operands] using ⟨hleft, hright⟩

/-- What holds of an encoder between the steps of encoding.  The bits of the formulas whose parts
are being encoded are pending: they are in the table and have no tie yet. -/
structure Sound (R : List (String × Formula)) (pending : List String) (e : LabelEncoder) :
    Prop where
  named : e.formulas.entries ⊆ R
  tied : ∀ x ∈ e.formulas.entries, x.2 = .var x.1 ∨ x.1 ∈ pending ∨ ∃ t ∈ e.ties, t.name = x.1
  bound : ∀ t ∈ e.ties, ∃ f, (t.name, f) ∈ e.formulas.entries ∧ Binds R e.bits f t
  orderly : Tie.Orderly e.ties
  fresh : ∀ t ∈ e.ties, ∀ m ∈ pending, m ∉ t.name :: t.operands

/-- A new formula is entered in the table. -/
lemma Sound.keep (h : Sound R pending e) (hnew : e.formulas.contains name = false)
    (hR : (name, f) ∈ R) : Sound R (name :: pending) (e.keep name f) := by
  have hname : name ∉ e.bits := by
    rw [← contains_iff, hnew]
    exact Bool.false_ne_true
  have hgrows : e.formulas.entries ⊆ (e.keep name f).formulas.entries := by
    rw [entries_keep hnew]
    exact List.subset_append_left _ _
  have hbits : e.bits ⊆ (e.keep name f).bits := List.map_subset _ hgrows
  refine ⟨?_, ?_, fun t ht => ?_, h.orderly, fun t ht m hm => ?_⟩
  · rw [entries_keep hnew]
    exact List.append_subset.2 ⟨h.named, List.cons_subset.2 ⟨hR, List.nil_subset _⟩⟩
  · rw [entries_keep hnew, List.forall_mem_append, List.forall_mem_singleton]
    refine ⟨fun x hx => ?_, Or.inr (Or.inl List.mem_cons_self)⟩
    rcases h.tied x hx with hvar | hpending | htied
    · exact Or.inl hvar
    · exact Or.inr (Or.inl (List.mem_cons_of_mem _ hpending))
    · exact Or.inr (Or.inr htied)
  · obtain ⟨g, hg, hbinds⟩ := h.bound t ht
    exact ⟨g, hgrows hg, hbinds.mono hbits⟩
  · rcases List.mem_cons.1 hm with rfl | hm
    · -- a name that is not in the table is in no tie
      obtain ⟨g, hg, hbinds⟩ := h.bound t ht
      rw [List.mem_cons, not_or]
      exact ⟨fun heq => hname (mem_bits_iff.2 ⟨g, heq ▸ hg⟩),
        fun hm => hname (hbinds.operands_subset hm)⟩
    · exact h.fresh t ht m hm

/-- A pending bit gets its tie. -/
lemma Sound.addTie (h : Sound R (t.name :: pending) e) (hmem : (t.name, f) ∈ e.formulas.entries)
    (hbinds : Binds R e.bits f t) (hname : t.name ∉ pending)
    (hoperands : ∀ n ∈ t.operands, n ∉ t.name :: pending) : Sound R pending (e.addTie t) := by
  have hself : t.name ∉ t.operands := fun hin => hoperands _ hin List.mem_cons_self
  have hpending : ∀ m ∈ pending, m ∉ t.name :: t.operands := by
    intro m hm hin
    rcases List.mem_cons.1 hin with rfl | hin
    · exact hname hm
    · exact hoperands m hin (List.mem_cons_of_mem _ hm)
  refine ⟨h.named, fun x hx => ?_, ?_, Tie.orderly_concat.2 ⟨h.orderly, ?_, hself⟩, ?_⟩
  · simp only [LabelEncoder.addTie, List.mem_append, List.mem_singleton, exists_or, or_and_right,
      exists_eq_left]
    rcases h.tied x hx with hvar | hin | htied
    · exact Or.inl hvar
    · rcases List.mem_cons.1 hin with heq | hin
      · exact Or.inr (Or.inr (Or.inr heq.symm))
      · exact Or.inr (Or.inl hin)
    · exact Or.inr (Or.inr (Or.inl htied))
  · exact List.forall_mem_append.2 ⟨h.bound, List.forall_mem_singleton.2 ⟨f, hmem, hbinds⟩⟩
  · exact fun u hu => h.fresh u hu _ List.mem_cons_self
  · refine List.forall_mem_append.2 ⟨fun u hu m hm => ?_, List.forall_mem_singleton.2 hpending⟩
    exact h.fresh u hu m (List.mem_cons_of_mem _ hm)

/-- What encoding amounts to: the encoder stays sound, nothing is taken out of the table, and the
bit that is handed out is in it. -/
structure Encodes (R : List (String × Formula)) (pending : List String) (e : LabelEncoder)
    (name : String) (e' : LabelEncoder) : Prop where
  sound : Sound R pending e'
  grows : e.formulas.entries ⊆ e'.formulas.entries
  found : name ∈ e'.bits

lemma Encodes.bits_subset {e' : LabelEncoder} (h : Encodes R pending e name e') :
    e.bits ⊆ e'.bits :=
  List.map_subset _ h.grows

lemma encodes_symbol {x : String} (h : Sound R pending e) (hR : (x, .var x) ∈ R) :
    Encodes R pending e x (e.addSymbol x) := by
  by_cases hknown : e.formulas.contains x = true
  · have hformulas : (e.addSymbol x).formulas = e.formulas := if_pos hknown
    have hbits : (e.addSymbol x).bits = e.bits := congrArg Table.keys hformulas
    refine ⟨⟨?_, ?_, ?_, h.orderly, h.fresh⟩, ?_, ?_⟩
    · rw [hformulas]
      exact h.named
    · rw [hformulas]
      exact h.tied
    · rw [hformulas, hbits]
      exact h.bound
    · rw [hformulas]
      exact List.Subset.refl _
    · rw [hbits]
      exact contains_iff.1 hknown
  · rw [Bool.not_eq_true] at hknown
    have hentries : (e.addSymbol x).formulas.entries = e.formulas.entries ++ [(x, .var x)] := by
      simp [addSymbol, hknown, Table.insert]
    have hgrows : e.formulas.entries ⊆ (e.addSymbol x).formulas.entries := by
      rw [hentries]
      exact List.subset_append_left _ _
    refine ⟨⟨?_, ?_, fun t ht => ?_, h.orderly, h.fresh⟩, hgrows, ?_⟩
    · rw [hentries]
      exact List.append_subset.2 ⟨h.named, List.cons_subset.2 ⟨hR, List.nil_subset _⟩⟩
    · rw [hentries, List.forall_mem_append, List.forall_mem_singleton]
      exact ⟨h.tied, Or.inl rfl⟩
    · obtain ⟨g, hg, hbinds⟩ := h.bound t ht
      exact ⟨g, hgrows hg, hbinds.mono (List.map_subset _ hgrows)⟩
    · rw [mem_bits_iff, hentries]
      exact ⟨.var x, List.mem_append_right _ List.mem_cons_self⟩

/-- The bit of a new formula is kept, some bits are handed out on top of that, and it is tied. -/
lemma encodes_tie {e' : LabelEncoder} (hnew : e.formulas.contains t.name = false)
    (hsound : Sound R (t.name :: pending) e')
    (hgrows : (e.keep t.name f).formulas.entries ⊆ e'.formulas.entries)
    (hbinds : Binds R e'.bits f t) (hname : t.name ∉ pending)
    (hoperands : ∀ n ∈ t.operands, n ∉ t.name :: pending) :
    Encodes R pending e t.name (e'.addTie t) := by
  rw [entries_keep hnew] at hgrows
  have hmem : (t.name, f) ∈ e'.formulas.entries :=
    hgrows (List.mem_append_right _ List.mem_cons_self)
  exact ⟨hsound.addTie hmem hbinds hname hoperands,
    fun x hx => hgrows (List.mem_append_left _ hx), mem_bits_iff.2 ⟨f, hmem⟩⟩

/-- **Encoding keeps the encoder sound**, provided that the formula and its parts are not named like
one of the formulas around them. -/
theorem Sound.encode (hf : f.IffFree) (h : Sound R pending e) (hR : f.namings lead ⊆ R)
    (hpending : ∀ x ∈ f.namings lead, x.1 ∉ pending) :
    Encodes R pending e (f.bitName lead) (e.encode lead f).2 := by
  induction hf generalizing e lead pending with
  | var x => exact encodes_symbol h (hR List.mem_cons_self)
  | @neg a ha ih =>
      have hparts : a.namings "" ⊆ (Formula.neg a).namings lead := List.subset_cons_self _ _
      cases hnew : e.formulas.contains ((Formula.neg a).labelName lead) with
      | true =>
          rw [encode_known rfl hnew]
          exact ⟨h, List.Subset.refl _, contains_iff.1 hnew⟩
      | false =>
          have havoid : ∀ x ∈ a.namings "", x.1 ∉ (Formula.neg a).labelName lead :: pending := by
            intro x hx
            rw [List.mem_cons, not_or]
            exact ⟨Formula.labelName_neg_ne ha hx, hpending x (hparts hx)⟩
          have hoperand := ih (h.keep hnew (hR Formula.self_mem_namings))
            (List.Subset.trans hparts hR) havoid
          rw [encode_neg hnew]
          refine encodes_tie hnew hoperand.sound hoperand.grows
            (.neg (hR (hparts Formula.self_mem_namings)) hoperand.found)
            (hpending _ Formula.self_mem_namings) ?_
          exact List.forall_mem_singleton.2 (havoid _ Formula.self_mem_namings)
  | @join c a b hc ha hb iha ihb =>
      have hleft : a.namings lead ⊆ (c.apply a b).namings lead :=
        fun x hx => Formula.mem_namings_apply.2 (Or.inr (Or.inl hx))
      have hright : b.namings lead ⊆ (c.apply a b).namings lead :=
        fun x hx => Formula.mem_namings_apply.2 (Or.inr (Or.inr hx))
      have hself : ((c.apply a b).labelName lead, c.apply a b) ∈ (c.apply a b).namings lead :=
        Formula.mem_namings_apply.2 (Or.inl rfl)
      rw [Formula.bitName_apply]
      cases hnew : e.formulas.contains ((c.apply a b).labelName lead) with
      | true =>
          rw [encode_known (by cases c <;> rfl) hnew]
          exact ⟨h, List.Subset.refl _, contains_iff.1 hnew⟩
      | false =>
          have hlabel := Formula.length_label_apply (a := a) (b := b) hc
          have havoidLeft : ∀ x ∈ a.namings lead,
              x.1 ∉ (c.apply a b).labelName lead :: pending := by
            intro x hx
            rw [List.mem_cons, not_or]
            exact ⟨Formula.labelName_apply_ne hc ha (by omega) hx, hpending x (hleft hx)⟩
          have havoidRight : ∀ x ∈ b.namings lead,
              x.1 ∉ (c.apply a b).labelName lead :: pending := by
            intro x hx
            rw [List.mem_cons, not_or]
            exact ⟨Formula.labelName_apply_ne hc hb (by omega) hx, hpending x (hright hx)⟩
          have ha' := iha (h.keep hnew (hR hself)) (List.Subset.trans hleft hR) havoidLeft
          have hb' := ihb ha'.sound (List.Subset.trans hright hR) havoidRight
          rw [encode_apply hc hnew]
          refine encodes_tie hnew hb'.sound (List.Subset.trans ha'.grows hb'.grows)
            (.join (hR (hleft Formula.self_mem_namings)) (hR (hright Formula.self_mem_namings))
              (hb'.bits_subset ha'.found) hb'.found) (hpending _ hself) ?_
          exact List.forall_mem_cons.2 ⟨havoidLeft _ Formula.self_mem_namings,
            List.forall_mem_singleton.2 (havoidRight _ Formula.self_mem_namings)⟩

/-! ## Formulas encoded one after the other -/

/-- Encodes formulas one after the other, each with its lead. -/
def encodeAll (e : LabelEncoder) : List (String × Formula) → List String × LabelEncoder
  | [] => ([], e)
  | (lead, f) :: rest =>
    let (name, e) := e.encode lead f
    let (names, e) := e.encodeAll rest
    (name :: names, e)

/-- The encoder that has encoded the formulas, and nothing before. -/
abbrev after (calls : List (String × Formula)) : LabelEncoder :=
  (encodeAll {} calls).2

/-- The formulas and their parts, each with the name that its bit has. -/
def namingsOf (calls : List (String × Formula)) : List (String × Formula) :=
  calls.flatMap fun call => call.2.namings call.1

variable {calls : List (String × Formula)}

lemma encodeAll_fst : (encodeAll e calls).1 = calls.map fun call => call.2.bitName call.1 := by
  induction calls generalizing e with
  | nil => rfl
  | cons call calls ih => simp [encodeAll, encode_fst, ih]

lemma Sound.encodeAll (hfree : ∀ call ∈ calls, call.2.IffFree) (h : Sound R [] e)
    (hR : namingsOf calls ⊆ R) :
    Sound R [] (encodeAll e calls).2 ∧
      e.formulas.entries ⊆ (encodeAll e calls).2.formulas.entries ∧
      ∀ call ∈ calls, call.2.bitName call.1 ∈ (encodeAll e calls).2.bits := by
  induction calls generalizing e with
  | nil => exact ⟨h, List.Subset.refl _, by simp⟩
  | cons call calls ih =>
      rw [List.forall_mem_cons] at hfree
      rw [namingsOf, List.flatMap_cons, List.append_subset] at hR
      have hcall := h.encode hfree.1 hR.1 (by simp)
      obtain ⟨hsound, hgrows, hfound⟩ := ih hfree.2 hcall.sound hR.2
      exact ⟨hsound, List.Subset.trans hcall.grows hgrows,
        List.forall_mem_cons.2 ⟨List.map_subset _ hgrows hcall.found, hfound⟩⟩

lemma sound_empty : Sound R [] {} :=
  ⟨List.nil_subset _, nofun, nofun, ⟨.nil, nofun⟩, nofun⟩

lemma sound_after (hfree : ∀ call ∈ calls, call.2.IffFree) :
    Sound (namingsOf calls) [] (after calls) :=
  (sound_empty.encodeAll hfree (List.Subset.refl _)).1

/-! ## Truth -/

variable {bits : Valuation}

/-- All ties hold. -/
def Kept (e : LabelEncoder) (bits : Valuation) : Prop :=
  ∀ t ∈ e.ties, t.Holds bits

/-- Formulas that a bit in the table is named after are equivalent. -/
def NamesAgree (e : LabelEncoder) (R : List (String × Formula)) : Prop :=
  ∀ x ∈ R, ∀ y ∈ R, x.1 = y.1 → x.1 ∈ e.bits → ∀ v, x.2.eval v = y.2.eval v

/-- A bit in the table shows the truth value of each formula that it is named after. -/
def Right (e : LabelEncoder) (R : List (String × Formula)) (bits : Valuation) : Prop :=
  ∀ x ∈ R, x.1 ∈ e.bits → bits x.1 = x.2.eval bits

/-- No symbol of the formulas is named like a bit that is tied. -/
def Apart (e : LabelEncoder) (calls : List (String × Formula)) : Prop :=
  ∀ call ∈ calls, ∀ y ∈ call.2.names, ∀ t ∈ e.ties, t.name ≠ y

lemma mem_entries_of_get? {n : String} (h : e.formulas.get? n = some f) :
    (n, f) ∈ e.formulas.entries := by
  obtain ⟨⟨m, g⟩, hfound, rfl⟩ := Option.map_eq_some_iff.1 h
  obtain rfl : m = n := by simpa using List.find?_some hfound
  exact List.mem_of_find?_eq_some hfound

lemma exists_get?_of_mem_bits {n : String} (h : n ∈ e.bits) : ∃ f, e.formulas.get? n = some f := by
  obtain ⟨f, hf⟩ := mem_bits_iff.1 h
  rw [← Option.isSome_iff_exists, Table.get?, Option.isSome_map, List.find?_isSome]
  exact ⟨(n, f), hf, by simp⟩

/-- Where formulas that share a bit are equivalent, the truth values of the formulas in the table
make up a point at which all ties hold, and there is no other. -/
lemma Sound.right_of_namesAgree (h : Sound R [] e) (hagree : e.NamesAgree R)
    (hkept : e.Kept bits) : e.Right R bits := by
  let shown : Valuation := fun n => (e.formulas.get? n).elim (bits n) (·.eval bits)
  have hshown : ∀ n g, (n, g) ∈ R → n ∈ e.bits → shown n = g.eval bits := by
    intro n g hg hin
    obtain ⟨f, hf⟩ := exists_get?_of_mem_bits hin
    have heq := hagree _ (h.named (mem_entries_of_get? hf)) _ hg rfl hin bits
    simpa only [shown, hf, Option.elim_some] using heq
  have hties : ∀ t ∈ e.ties, t.Holds shown := by
    intro t ht
    obtain ⟨f, hf, hbinds⟩ := h.bound t ht
    rw [Tie.holds_iff, hshown _ f (h.named hf) (mem_bits_iff.2 ⟨f, hf⟩)]
    cases hbinds with
    | neg ha hin => rw [Tie.truth, hshown _ _ ha hin, Formula.eval]
    | join ha hb hleft hright =>
        rw [Tie.truth, hshown _ _ ha hleft, hshown _ _ hb hright, Formula.eval_apply]
  have hloose : ∀ n, (∀ t ∈ e.ties, t.name ≠ n) → bits n = shown n := by
    intro n hn
    cases hf : e.formulas.get? n with
    | none => simp only [shown, hf, Option.elim_none]
    | some f =>
        rcases h.tied _ (mem_entries_of_get? hf) with hvar | hpending | ⟨t, ht, hname⟩
        · obtain rfl : f = .var n := hvar
          simp only [shown, hf, Option.elim_some, Formula.eval]
        · simp at hpending
        · exact absurd hname (hn t ht)
  have hsame : bits = shown := Tie.eq_of_holds h.orderly hkept hties hloose
  intro x hx hin
  rw [← hshown x.1 x.2 hx hin, ← hsame]

/-- Where every bit is right at every point at which the ties hold, formulas that share a bit are
equivalent: each valuation comes with such a point. -/
lemma Sound.namesAgree_of_right (h : Sound (namingsOf calls) [] e) (hapart : e.Apart calls)
    (hright : ∀ bits, e.Kept bits → e.Right (namingsOf calls) bits) :
    e.NamesAgree (namingsOf calls) := by
  intro x hx y hy hname hin v
  let bits := Tie.settle e.ties v
  have hall := hright bits (Tie.holds_settle h.orderly)
  have heval : ∀ z ∈ namingsOf calls, z.2.eval bits = z.2.eval v := by
    intro z hz
    obtain ⟨call, hcall, hz⟩ := List.mem_flatMap.1 hz
    refine z.2.dependsOn_names fun n hn => Tie.settle_of_ne fun t ht => hapart call hcall n ?_ t ht
    exact Formula.mem_names_of_mem_subformulas (Formula.mem_subformulas_of_mem_namings hz) hn
  rw [← heval x hx, ← heval y hy, ← hall x hx hin, ← hall y hy (hname ▸ hin), hname]

/-- Symbols without an underscore are named like no tied bit. -/
lemma Sound.apart_of_plain (h : Sound (namingsOf calls) [] e)
    (hfree : ∀ call ∈ calls, call.2.IffFree)
    (hplain : ∀ call ∈ calls, ∀ y ∈ call.2.names, '_' ∉ y.toList) : e.Apart calls := by
  rintro call hcall y hy t ht rfl
  obtain ⟨f, hf, hbinds⟩ := h.bound t ht
  obtain ⟨call', hcall', hmem⟩ := List.mem_flatMap.1 (h.named hf)
  exact hplain call hcall _ hy
    (Formula.underscore_mem_of_mem_namings (hfree call' hcall') hmem hbinds.isVar_eq_false)

/-- **When a bit shows the truth of what it is named after.**  Formulas without equivalences are
encoded one after the other, from nothing.

* Every formula is handed the bit of its own name, and that bit is in the table.
* Every valuation of the bits that are not tied extends to exactly one point at which all ties cost
  nothing.
* If no symbol is named like a tied bit, as is so for symbols without an underscore, then at all
  those points every bit in the table shows the truth value of each formula or part named after it,
  if and only if formulas and parts that share a bit are equivalent.
* The condition suffices in any case for the bits that were handed out. -/
theorem right_iff_namesAgree (K : Type) [Field K] [LinearOrder K] [IsStrictOrderedRing K]
    (calls : List (String × Formula)) (hfree : ∀ call ∈ calls, call.2.IffFree) :
    let e := after calls
    let free := fun bits : Valuation => ∀ t ∈ e.ties, (t.squareEnergy : Energy K).cost bits = 0
    ((encodeAll {} calls).1 = calls.map (fun call => call.2.bitName call.1) ∧
      ∀ call ∈ calls, call.2.bitName call.1 ∈ e.bits) ∧
    (∀ v : Valuation, ∃ bits : Valuation,
      ((∀ n, (∀ t ∈ e.ties, t.name ≠ n) → bits n = v n) ∧ free bits) ∧
      ∀ bits' : Valuation, (∀ n, (∀ t ∈ e.ties, t.name ≠ n) → bits' n = v n) → free bits' →
        bits' = bits) ∧
    (e.Apart calls → ((∀ bits, free bits → e.Right (namingsOf calls) bits) ↔
      e.NamesAgree (namingsOf calls))) ∧
    ((∀ call ∈ calls, ∀ y ∈ call.2.names, '_' ∉ y.toList) → e.Apart calls) ∧
    (e.NamesAgree (namingsOf calls) → ∀ bits, free bits → ∀ call ∈ calls,
      bits (call.2.bitName call.1) = call.2.eval bits) := by
  intro e free
  have hsound : Sound (namingsOf calls) [] e := sound_after hfree
  have hfound := (sound_empty.encodeAll hfree (List.Subset.refl (namingsOf calls))).2.2
  have hkept : ∀ bits, free bits ↔ e.Kept bits :=
    fun bits => forall₂_congr fun t _ => Tie.cost_squareEnergy_eq_zero_iff
  simp only [hkept]
  refine ⟨⟨encodeAll_fst, hfound⟩, fun v => ⟨Tie.settle e.ties v, ⟨fun n => Tie.settle_of_ne,
    Tie.holds_settle hsound.orderly⟩, fun bits' hloose hbits' => ?_⟩,
    fun hapart => ⟨hsound.namesAgree_of_right hapart, fun hagree bits =>
      hsound.right_of_namesAgree hagree⟩,
    hsound.apart_of_plain hfree, fun hagree bits hbits call hcall => ?_⟩
  · refine Tie.eq_of_holds hsound.orderly hbits' (Tie.holds_settle hsound.orderly) fun n hn => ?_
    rw [hloose n hn, Tie.settle_of_ne hn]
  · exact hsound.right_of_namesAgree hagree hbits _
      (List.mem_flatMap.2 ⟨call, hcall, Formula.self_mem_namings⟩) (hfound call hcall)

/-- Two formulas that differ only in how a conjunction is grouped share a bit rightly. -/
theorem right_iff_namesAgree_regrouped :
    let f : Formula := .neg (.conj (.conj (.var "P") (.var "Q")) (.var "R"))
    let g : Formula := .neg (.conj (.var "P") (.conj (.var "Q") (.var "R")))
    f.bitName "" = g.bitName "" ∧ ∀ bits,
      (∀ t ∈ (after [("", f), ("", g)]).ties, (t.squareEnergy : Energy ℚ).cost bits = 0) →
        bits (g.bitName "") = g.eval bits := by
  intro f g
  have hconj : ∀ {a b : Formula}, a.IffFree → b.IffFree → (Formula.conj a b).IffFree :=
    .join (c := .conj) (by decide)
  have hfree : ∀ call ∈ [("", f), ("", g)], call.2.IffFree := by
    simp only [List.forall_mem_cons]
    exact ⟨.neg (hconj (hconj (.var _) (.var _)) (.var _)),
      .neg (hconj (.var _) (hconj (.var _) (.var _))), List.forall_mem_nil _⟩
  have hshared : ∀ x ∈ namingsOf [("", f), ("", g)], ∀ y ∈ namingsOf [("", f), ("", g)],
      x.1 = y.1 → x.2 = y.2 ∨ (x.2 = f ∧ y.2 = g) ∨ (x.2 = g ∧ y.2 = f) := by
    decide +kernel
  have hagree : (after [("", f), ("", g)]).NamesAgree (namingsOf [("", f), ("", g)]) := by
    intro x hx y hy hname _ v
    rcases hshared x hx y hy hname with h | ⟨hx, hy⟩ | ⟨hx, hy⟩
    · rw [h]
    · simp [hx, hy, f, g, Formula.eval, Bool.and_assoc]
    · simp [hx, hy, f, g, Formula.eval, Bool.and_assoc]
  exact ⟨rfl, fun bits hfree' => (right_iff_namesAgree ℚ _ hfree).2.2.2.2 hagree bits hfree' ("", g)
    (by simp)⟩

/-- `~(~P & Q)` and `~~(P & Q)` share a bit, which is tied for the first.  Where neither `P` nor `Q`
holds, all ties hold and the bit is one, though the second formula is false. -/
theorem label_shared_wrongly :
    ∃ (calls : List (String × Formula)) (bits : Valuation),
      (∀ call ∈ calls, ∀ y ∈ call.2.names, y ∈ ["P", "Q"]) ∧
      (∀ t ∈ (after calls).ties, (t.squareEnergy : Energy ℚ).cost bits = 0) ∧
      ∃ call ∈ calls, bits (call.2.bitName call.1) = true ∧ call.2.eval bits = false := by
  refine ⟨[("", .neg (.conj (.neg (.var "P")) (.var "Q"))),
    ("", .neg (.neg (.conj (.var "P") (.var "Q"))))], (["Not_NPAQ", "Not_P"].contains ·),
    by decide, ?_, _, List.mem_cons_of_mem _ List.mem_cons_self, by decide⟩
  intro t ht
  rw [Tie.cost_squareEnergy_eq_zero_iff, Tie.holds_iff]
  revert t
  decide

end LabelEncoder

end AnnealProver
