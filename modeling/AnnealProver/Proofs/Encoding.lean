import Mathlib.Logic.Relation
import AnnealProver.Energy.Encoder
import AnnealProver.Proofs.Costs
import AnnealProver.Proofs.Likeness

/-!
# The ties say exactly what the truth tables say

However many formulas have been encoded, one after the other and sharing bits, two conditions on a
zero-one point are the same: that all ties are **kept**, and that the encoder is **truthful**, every
bit showing the truth value of its formula under the values of the symbols.

**Steps.**  Encoding a formula is a run of steps (`encode_encodes`), and a step does one of two
things: it gives a variable its bit, or it adds one new tie for a formula whose parts have bits.
Either way a formula that is not in the table yet is added to it (`Adds`), so nothing that could be
looked up before changes.

**Truth.**  `Step.kept_iff_truthful` carries the equivalence of the two conditions over a step.  No
name has to be fresh for that: where two formulas share a name, both conditions ask for more.

**Names.**  Fresh names are needed to find a point at all.  A new name ends with the encoder's
counter behind an underscore, so no two new names are the same (`Numbered.unique`); only a symbol
may be named like one.  Where none is, every valuation extends to a truthful point
(`Run.exists_truthful`), and to one only (`Tidy.point_unique`).
-/

namespace AnnealProver

/-- All parts of some formulas, the formulas themselves among them. -/
def Formula.partsOf (fs : List Formula) : Set Formula :=
  {g | ∃ f ∈ fs, g ∈ f.subformulas}

lemma Formula.var_mem_partsOf {fs : List Formula} {y : String} :
    .var y ∈ partsOf fs ↔ ∃ f ∈ fs, y ∈ f.names := by
  simp [partsOf, var_mem_subformulas]

namespace Encoder

open Formula (partsOf)

/-! ## Steps -/

/-- A tie between a new name and the bits that the parts of the formula have already. -/
inductive NewTie (e : Encoder) : Formula → Tie → Prop
  | neg {a : Formula} {x : Encoded} (ha : e.formulas.get? a = some x) :
      NewTie e (.neg a) (.neg x.name (e.newName "Not" [x.name]).1)
  | join {c : Connective} {a b : Formula} {x y : Encoded} (ha : e.formulas.get? a = some x)
      (hb : e.formulas.get? b = some y) :
      NewTie e (c.apply a b) (.join c x.name y.name (e.newName c.stem [x.name, y.name]).1)

/-- The encoder with one more tie. -/
def withTie (e : Encoder) (f : Formula) (t : Tie) : Encoder :=
  ({ e with counter := e.counter + 1 }.addTie f t).2

/-- The encoder that has given a formula of `F` its bit. -/
inductive Step (F : Set Formula) (e : Encoder) : Encoder → Prop
  | symbol {x : String} (hx : .var x ∈ F) (hnew : e.formulas.get? (.var x) = none) :
      Step F e (e.addSymbol x).2
  | tie {f : Formula} {t : Tie} (hf : f ∈ F) (hnew : e.formulas.get? f = none)
      (ht : e.NewTie f t) : Step F e (e.withTie f t)

/-- Any number of steps. -/
abbrev Run (F : Set Formula) : Encoder → Encoder → Prop :=
  Relation.ReflTransGen (Step F)

variable {e e' : Encoder} {F G : Set Formula} {f g : Formula} {x : Encoded} {t : Tie}
  {bits v : Valuation}

lemma Step.mono (hFG : F ⊆ G) (h : Step F e e') : Step G e e' := by
  cases h with
  | symbol hx hnew => exact .symbol (hFG hx) hnew
  | tie hf hnew ht => exact .tie (hFG hf) hnew ht

lemma Run.mono (hFG : F ⊆ G) (h : Run F e e') : Run G e e' :=
  Relation.ReflTransGen.mono (fun _ _ => Step.mono hFG) _ _ h

/-- A formula that had no bit has been added to the table. -/
structure Adds (e : Encoder) (f : Formula) (x : Encoded) (e' : Encoder) : Prop where
  new : e.formulas.get? f = none
  formulas : e'.formulas = e.formulas.insert f x
  lead : e'.lead = e.lead
  bits : e'.bits = e.bits.insert x.name

lemma addSymbol_adds {y : String} (hnew : e.formulas.get? (.var y) = none) :
    Adds e (.var y) ⟨e.lead ++ y, .var y, none⟩ (e.addSymbol y).2 := by
  refine ⟨hnew, ?_, ?_, ?_⟩ <;> simp only [addSymbol, keep, OrderedSet.insert] <;> split_ifs <;> rfl

lemma withTie_adds (hnew : e.formulas.get? f = none) :
    Adds e f ⟨t.name, f, some t⟩ (e.withTie f t) :=
  ⟨hnew, rfl, rfl, rfl⟩

@[simp] lemma addSymbol_ties (y : String) : (e.addSymbol y).2.ties = e.ties := by
  simp only [addSymbol, keep]
  split_ifs <;> rfl

@[simp] lemma addSymbol_counter (y : String) : (e.addSymbol y).2.counter = e.counter := by
  simp only [addSymbol, keep]
  split_ifs <;> rfl

@[simp] lemma withTie_ties : (e.withTie f t).ties = e.ties ++ [t] := rfl

namespace Adds

lemma get?_self (h : Adds e f x e') : e'.formulas.get? f = some x := by
  rw [h.formulas, FormulaTable.get?_insert h.new, if_pos (Formula.alike_refl f)]

/-- What could be looked up before stays. -/
lemma get?_of_some {y : Encoded} (h : Adds e f x e') (hy : e.formulas.get? g = some y) :
    e'.formulas.get? g = some y := by
  rw [h.formulas]
  exact FormulaTable.get?_insert_of_some h.new hy

lemma get?_larger (h : Adds e f x e') (hg : f.size < g.size) :
    e'.formulas.get? g = e.formulas.get? g := by
  have hdiffers : ¬ f.alike g = true := by
    intro hfg
    have := Formula.size_eq_of_alike hfg
    omega
  rw [h.formulas, FormulaTable.get?_insert h.new, if_neg hdiffers]

end Adds

lemma Step.exists_adds (h : Step F e e') : ∃ f x, Adds e f x e' := by
  cases h with
  | symbol _ hnew => exact ⟨_, _, addSymbol_adds hnew⟩
  | tie _ hnew _ => exact ⟨_, _, withTie_adds hnew⟩

lemma Step.ties_subset (h : Step F e e') : e.ties ⊆ e'.ties := by
  cases h <;> simp

lemma Run.lead_eq (h : Run F e e') : e'.lead = e.lead := by
  induction h with
  | refl => rfl
  | tail _ step ih =>
      obtain ⟨f, x, hadds⟩ := step.exists_adds
      rw [hadds.lead, ih]

lemma Run.get?_of_some (h : Run F e e') (hx : e.formulas.get? g = some x) :
    e'.formulas.get? g = some x := by
  induction h with
  | refl => exact hx
  | tail _ step ih =>
      obtain ⟨f, y, hadds⟩ := step.exists_adds
      exact hadds.get?_of_some ih

lemma Run.ties_subset (h : Run F e e') : e.ties ⊆ e'.ties := by
  induction h with
  | refl => exact List.Subset.refl _
  | tail _ step ih => exact List.Subset.trans ih step.ties_subset

/-! ## Encoding is a run -/

/-- What encoding a formula amounts to.  That nothing larger gets a bit is what keeps a compound
formula new while its parts are encoded. -/
structure Encodes (e : Encoder) (f : Formula) (result : Encoded × Encoder) : Prop where
  run : Run {g | g ∈ f.subformulas} e result.2
  found : result.2.formulas.get? f = some result.1
  larger : ∀ g, f.size < g.size → result.2.formulas.get? g = e.formulas.get? g

lemma encodes_known (h : e.formulas.get? f = some x) : Encodes e f (x, e) :=
  ⟨.refl, h, fun _ _ => rfl⟩

lemma encodes_symbol {y : String} (hnew : e.formulas.get? (.var y) = none) :
    Encodes e (.var y) (e.addSymbol y) := by
  have hadds := addSymbol_adds hnew
  refine ⟨.single (.symbol ?_ hnew), hadds.get?_self, fun g hg => hadds.get?_larger hg⟩
  exact Formula.self_mem_subformulas _

/-- The last step for a compound formula, behind a run that has given its parts their bits. -/
lemma encodes_tie (hrun : Run {g | g ∈ f.subformulas} e e') (hnew : e.formulas.get? f = none)
    (hlarger : ∀ g, f.size ≤ g.size → e'.formulas.get? g = e.formulas.get? g)
    (ht : e'.NewTie f t) : Encodes e f (⟨t.name, f, some t⟩, e'.withTie f t) := by
  have hstill : e'.formulas.get? f = none := by rw [hlarger f le_rfl, hnew]
  have hadds := withTie_adds (t := t) hstill
  refine ⟨hrun.tail (.tie (Formula.self_mem_subformulas f) hstill ht), hadds.get?_self, ?_⟩
  intro g hg
  rw [hadds.get?_larger hg, hlarger g hg.le]

lemma encode_known (h : e.formulas.get? f = some x) : e.encode f = (x, e) := by
  cases f <;> simp [encode, h]

lemma encode_join {c : Connective} {a b : Formula} (h : e.formulas.get? (c.apply a b) = none) :
    e.encode (c.apply a b) =
      ((e.encode a).2.encode b).2.addJoin (c.apply a b) c (e.encode a).1
        ((e.encode a).2.encode b).1 := by
  cases c <;> simp only [Connective.apply] at h ⊢ <;> simp [encode, h]

theorem encode_encodes (e : Encoder) (f : Formula) : Encodes e f (e.encode f) := by
  induction f using Formula.connectiveInduction generalizing e with
  | var y =>
      cases h : e.formulas.get? (.var y) with
      | some known => rw [encode_known h]; exact encodes_known h
      | none =>
          have hencode : e.encode (.var y) = e.addSymbol y := by simp [encode, h]
          rw [hencode]
          exact encodes_symbol h
  | neg a ih =>
      cases h : e.formulas.get? (.neg a) with
      | some known => rw [encode_known h]; exact encodes_known h
      | none =>
          have hencode : e.encode (.neg a) = (e.encode a).2.addNeg (.neg a) (e.encode a).1 := by
            simp [encode, h]
          rw [hencode]
          refine encodes_tie ((ih e).run.mono ?_) h (fun g hg => (ih e).larger g ?_)
            (.neg (ih e).found)
          · exact fun g hg => List.mem_cons_of_mem _ hg
          · simp only [Formula.size] at hg
            omega
  | join c a b iha ihb =>
      cases h : e.formulas.get? (c.apply a b) with
      | some known => rw [encode_known h]; exact encodes_known h
      | none =>
          rw [encode_join h]
          have ha := iha e
          have hb := ihb (e.encode a).2
          refine encodes_tie ((ha.run.mono ?_).trans (hb.run.mono ?_)) h (fun g hg => ?_)
            (.join (hb.run.get?_of_some ha.found) hb.found)
          · intro g (hg : g ∈ a.subformulas)
            simp [hg]
          · intro g (hg : g ∈ b.subformulas)
            simp [hg]
          · rw [Formula.size_apply] at hg
            rw [hb.larger g (by omega), ha.larger g (by omega)]

/-- Encoding formulas one after the other is a run, and in the end each of them is found with the
bit that it was given. -/
theorem encodeAll_run (e : Encoder) (fs : List Formula) :
    Run (partsOf fs) e (e.encodeAll fs).2 ∧
      fs.map (e.encodeAll fs).2.formulas.get? = (e.encodeAll fs).1.map some := by
  induction fs generalizing e with
  | nil => exact ⟨.refl, rfl⟩
  | cons f fs ih =>
      have hf := encode_encodes e f
      obtain ⟨hrun, hfound⟩ := ih (e.encode f).2
      refine ⟨(hf.run.mono ?_).trans (hrun.mono ?_), ?_⟩
      · exact fun g hg => ⟨f, List.mem_cons_self, hg⟩
      · exact fun g ⟨h, hh, hg⟩ => ⟨h, List.mem_cons_of_mem _ hh, hg⟩
      · have hhead := hrun.get?_of_some hf.found
        simp only [encodeAll, List.map_cons, hhead, hfound]

lemma exists_mem_encodeAll {fs : List Formula} (hf : f ∈ fs) :
    ∃ x ∈ (e.encodeAll fs).1, (e.encodeAll fs).2.formulas.get? f = some x := by
  have hmem : (e.encodeAll fs).2.formulas.get? f ∈ fs.map (e.encodeAll fs).2.formulas.get? :=
    List.mem_map_of_mem hf
  rw [(encodeAll_run e fs).2] at hmem
  obtain ⟨x, hx, hfound⟩ := List.mem_map.1 hmem
  exact ⟨x, hx, hfound.symm⟩

lemma exists_of_mem_encodeAll {fs : List Formula} (hx : x ∈ (e.encodeAll fs).1) :
    ∃ f ∈ fs, (e.encodeAll fs).2.formulas.get? f = some x := by
  have hmem : some x ∈ (e.encodeAll fs).1.map some := List.mem_map_of_mem hx
  rw [← (encodeAll_run e fs).2] at hmem
  exact List.mem_map.1 hmem

/-! ## Truth -/

/-- The values of the symbols at a zero-one point. -/
def valuation (e : Encoder) (bits : Valuation) : Valuation :=
  fun y => bits (e.lead ++ y)

/-- All ties hold. -/
def Kept (e : Encoder) (bits : Valuation) : Prop :=
  ∀ t ∈ e.ties, t.Holds bits

/-- Every bit shows the truth value of its formula. -/
def Truthful (e : Encoder) (bits : Valuation) : Prop :=
  ∀ f x, e.formulas.get? f = some x → bits x.name = f.eval (e.valuation bits)

/-- Where the bits of the parts are right, the new tie says that the new bit is. -/
lemma NewTie.holds_iff (ht : e.NewTie f t) (h : e.Truthful bits) :
    t.Holds bits ↔ bits t.name = f.eval (e.valuation bits) := by
  cases ht with
  | neg ha => simp only [Tie.Holds, Tie.name, Formula.eval, h _ _ ha]
  | join ha hb => simp only [Tie.Holds, Tie.name, Formula.eval_apply, h _ _ ha, h _ _ hb]

lemma Adds.truthful_iff (h : Adds e f x e') :
    e'.Truthful bits ↔ e.Truthful bits ∧ bits x.name = f.eval (e.valuation bits) := by
  have hvaluation : e'.valuation bits = e.valuation bits := by
    funext y
    simp only [valuation, h.lead]
  simp only [Truthful, hvaluation]
  constructor
  · exact fun htrue => ⟨fun g y hy => htrue g y (h.get?_of_some hy), htrue f x h.get?_self⟩
  · rintro ⟨hold, hx⟩
    rw [h.formulas]
    refine FormulaTable.forall_get?_insert h.new (fun g hfg hf => ?_) hold hx
    rw [hf, Formula.eval_eq_of_alike hfg]

lemma Step.kept_iff_truthful (h : Step F e e') (ih : e.Kept bits ↔ e.Truthful bits) :
    e'.Kept bits ↔ e'.Truthful bits := by
  cases h with
  | @symbol y _ hnew =>
      have hright : bits (e.lead ++ y) = (Formula.var y).eval (e.valuation bits) := rfl
      rw [(addSymbol_adds hnew).truthful_iff, Kept, addSymbol_ties]
      exact ⟨fun hkept => ⟨ih.1 hkept, hright⟩, fun htrue => ih.2 htrue.1⟩
  | @tie f t _ hnew ht =>
      have hkept : (e.withTie f t).Kept bits ↔ e.Kept bits ∧ t.Holds bits := by
        simp [Kept, or_imp, forall_and]
      rw [hkept, (withTie_adds hnew).truthful_iff, ih]
      exact and_congr_right fun htrue => ht.holds_iff htrue

/-- **The ties hold exactly where every bit shows the truth value of its formula**, after any run.
-/
theorem Run.kept_iff_truthful {lead : String} (h : Run F { lead } e) :
    e.Kept bits ↔ e.Truthful bits := by
  induction h with
  | refl => simp [Kept, Truthful]
  | tail _ step ih => exact step.kept_iff_truthful ih

/-! ## Names -/

/-- The name ends with the number behind an underscore. -/
def Numbered (k : ℕ) (name : String) : Prop :=
  ∃ front : String, name = front ++ "_" ++ toString k

lemma newName_numbered (e : Encoder) (stem : String) (parts : List String) :
    Numbered (e.counter + 1) (e.newName stem parts).1 :=
  ⟨_, rfl⟩

/-- The number can be read off the name: it is what stands behind the last underscore. -/
lemma Numbered.unique {j k : ℕ} {name : String} (hj : Numbered j name) (hk : Numbered k name) :
    j = k := by
  have hlast : ∀ {i : ℕ}, Numbered i name →
      (name.toList.reverse.takeWhile (· != '_')).reverse = Nat.toDigits 10 i := by
    rintro i ⟨front, rfl⟩
    have hdigits : ∀ c ∈ (Nat.toDigits 10 i).reverse, (c != '_') = true := by
      intro c hc
      simp only [bne_iff_ne]
      rintro rfl
      exact Nat.underscore_not_in_toDigits (List.mem_reverse.1 hc)
    simp only [String.toList_append, List.reverse_append, Nat.toString_eq_repr, Nat.toList_repr]
    rw [List.takeWhile_append_of_pos hdigits]
    simp
  have hdigits := (hlast hj).symm.trans (hlast hk)
  rw [← Nat.ofDigitChars_ten_toDigits (n := j), hdigits, Nat.ofDigitChars_ten_toDigits]

lemma NewTie.numbered (ht : e.NewTie f t) : Numbered (e.counter + 1) t.name := by
  cases ht with
  | neg _ => exact newName_numbered e _ _
  | join _ _ => exact newName_numbered e _ _

lemma NewTie.parts (ht : e.NewTie f t) (hparts : ∀ g x, e.formulas.get? g = some x →
    ∀ h ∈ g.subformulas, ∃ y, e.formulas.get? h = some y) :
    ∀ h ∈ f.subformulas, h = f ∨ ∃ y, e.formulas.get? h = some y := by
  intro h hh
  cases ht with
  | neg ha =>
      rcases List.mem_cons.1 hh with rfl | hh
      · exact Or.inl rfl
      · exact Or.inr (hparts _ _ ha h hh)
  | join ha hb =>
      rw [Formula.subformulas_apply, List.mem_cons, List.mem_append] at hh
      rcases hh with rfl | hh | hh
      · exact Or.inl rfl
      · exact Or.inr (hparts _ _ ha h hh)
      · exact Or.inr (hparts _ _ hb h hh)

/-- What is true of the table after every run in `F`. -/
structure Tidy (F : Set Formula) (e : Encoder) : Prop where
  /-- Up to likeness, only formulas of `F` have a bit. -/
  among : ∀ f x, e.formulas.get? f = some x → ∃ g ∈ F, g.alike f = true
  /-- A formula with a bit has parts with bits. -/
  parts : ∀ f x, e.formulas.get? f = some x →
    ∀ g ∈ f.subformulas, ∃ y, e.formulas.get? g = some y
  /-- A bit is named after a symbol or has a number that has been handed out. -/
  named : ∀ f x, e.formulas.get? f = some x →
    (∃ y, .var y ∈ F ∧ x.name = e.lead ++ y) ∨ ∃ k ≤ e.counter, Numbered k x.name
  /-- Every bit belongs to a formula. -/
  found : ∀ n ∈ e.bits.toList, ∃ f x, e.formulas.get? f = some x ∧ x.name = n

lemma Tidy.adds (h : Tidy F e) (hadds : Adds e f x e') (hf : f ∈ F)
    (hparts : ∀ g ∈ f.subformulas, g = f ∨ ∃ y, e.formulas.get? g = some y)
    (hcounter : e.counter ≤ e'.counter)
    (hname : (∃ y, .var y ∈ F ∧ x.name = e.lead ++ y) ∨ ∃ k ≤ e'.counter, Numbered k x.name) :
    Tidy F e' where
  among := by
    rw [hadds.formulas]
    refine FormulaTable.forall_get?_insert hadds.new ?_ h.among ⟨f, hf, Formula.alike_refl f⟩
    rintro g hfg ⟨k, hk, hkf⟩
    exact ⟨k, hk, Formula.alike_trans hkf hfg⟩
  parts := by
    intro g y hy
    rw [hadds.formulas] at hy
    refine FormulaTable.forall_get?_insert
      (P := fun g _ => ∀ k ∈ g.subformulas, ∃ z, e'.formulas.get? k = some z)
      hadds.new ?_ ?_ ?_ g y hy
    · intro g hfg hall k hk
      obtain ⟨l, hl, hlk⟩ := Formula.exists_alike_subformula hfg hk
      rw [← FormulaTable.get?_congr hlk]
      exact hall l hl
    · intro g y hy k hk
      obtain ⟨z, hz⟩ := h.parts g y hy k hk
      exact ⟨z, hadds.get?_of_some hz⟩
    · intro k hk
      rcases hparts k hk with rfl | ⟨z, hz⟩
      · exact ⟨x, hadds.get?_self⟩
      · exact ⟨z, hadds.get?_of_some hz⟩
  named := by
    rw [hadds.formulas, hadds.lead]
    refine FormulaTable.forall_get?_insert hadds.new (fun _ _ hx => hx) (fun g y hy => ?_) hname
    rcases h.named g y hy with hsymbol | ⟨k, hk, hnumbered⟩
    · exact Or.inl hsymbol
    · exact Or.inr ⟨k, hk.trans hcounter, hnumbered⟩
  found := by
    rw [hadds.bits]
    intro n hn
    rcases OrderedSet.mem_or_eq_of_mem_insert hn with hn | rfl
    · obtain ⟨g, y, hy, hname⟩ := h.found n hn
      exact ⟨g, y, hadds.get?_of_some hy, hname⟩
    · exact ⟨f, x, hadds.get?_self, rfl⟩

lemma Step.tidy (h : Step F e e') (ih : Tidy F e) : Tidy F e' := by
  cases h with
  | @symbol y hy hnew =>
      refine ih.adds (addSymbol_adds hnew) hy ?_ (addSymbol_counter y).ge (Or.inl ⟨y, hy, rfl⟩)
      intro g hg
      exact Or.inl (List.mem_singleton.1 hg)
  | @tie f t hf hnew ht =>
      refine ih.adds (withTie_adds hnew) hf (ht.parts ih.parts) (Nat.le_succ _) (Or.inr ?_)
      exact ⟨e.counter + 1, le_rfl, ht.numbered⟩

lemma Run.tidy {lead : String} (h : Run F { lead } e) : Tidy F e := by
  induction h with
  | refl => exact ⟨by simp, by simp, by simp, by simp⟩
  | tail _ step ih => exact step.tidy ih

/-- The names in a formula with a bit are symbols of the run. -/
lemma Tidy.var_mem (h : Tidy F e) (hx : e.formulas.get? f = some x) {y : String}
    (hy : y ∈ f.names) : .var y ∈ F := by
  obtain ⟨z, hz⟩ := h.parts f x hx _ (Formula.var_mem_subformulas.2 hy)
  obtain ⟨g, hg, hgy⟩ := h.among _ z hz
  cases g <;> simp only [Formula.alike, Bool.false_eq_true, beq_iff_eq] at hgy
  rwa [← hgy]

/-! ## Points -/

/-- The symbols of a run have the values that a valuation gives them. -/
def Extends (e : Encoder) (F : Set Formula) (v bits : Valuation) : Prop :=
  ∀ y, .var y ∈ F → bits (e.lead ++ y) = v y

lemma Tidy.eval_valuation (h : Tidy F e) (hbits : e.Extends F v bits)
    (hx : e.formulas.get? f = some x) : f.eval (e.valuation bits) = f.eval v :=
  f.dependsOn_names fun _ hy => hbits _ (h.var_mem hx hy)

/-- The values of the symbols determine a truthful point as far as the encoder goes. -/
lemma Tidy.point_unique (h : Tidy F e) {bits' : Valuation} (hbits : e.Extends F v bits)
    (htrue : e.Truthful bits) (hbits' : e.Extends F v bits') (htrue' : e.Truthful bits')
    {n : String} (hn : n ∈ e.bits.toList) : bits n = bits' n := by
  obtain ⟨f, x, hx, rfl⟩ := h.found n hn
  rw [htrue f x hx, htrue' f x hx, h.eval_valuation hbits hx, h.eval_valuation hbits' hx]

/-- A new name is in no use yet, provided that no symbol is named like it. -/
lemma Tidy.name_ne (h : Tidy F e) (ht : e.NewTie f t)
    (hapart : ∀ y, .var y ∈ F → t.name ≠ e.lead ++ y) (hx : e.formulas.get? g = some x) :
    x.name ≠ t.name := by
  intro heq
  rcases h.named g x hx with ⟨y, hy, hname⟩ | ⟨k, hk, hnumbered⟩
  · exact hapart y hy (heq.symm.trans hname)
  · rw [heq] at hnumbered
    have := hnumbered.unique ht.numbered
    omega

/-- **Every reading of formulas can be shown in bits**, as long as it takes alike formulas for the
same and no symbol is named like a new bit.  The bits are set in the order in which the run has
introduced them. -/
theorem Run.exists_point {lead : String} {β : Type} (h : Run F { lead } e)
    (hapart : ∀ y, .var y ∈ F → ∀ t ∈ e.ties, t.name ≠ lead ++ y) (r : Formula → β)
    (hr : ∀ f g, f.alike g = true → r f = r g) :
    ∃ point : String → β, (∀ y, .var y ∈ F → point (lead ++ y) = r (.var y)) ∧
      ∀ f x, e.formulas.get? f = some x → point x.name = r f := by
  induction h with
  | refl =>
      refine ⟨fun n => r (.var (Text.afterFirst lead.length n)), fun y _ => ?_, by simp⟩
      simp only [Text.afterFirst, String.toList_append, ← String.length_toList, List.drop_left,
        String.ofList_toList]
  | @tail e e' run step ih =>
      have hlead : e.lead = lead := Run.lead_eq run
      obtain ⟨point, hsymbols, hright⟩ := ih fun y hy t ht => hapart y hy t (step.ties_subset ht)
      cases step with
      | @symbol y hy hnew =>
          refine ⟨point, hsymbols, ?_⟩
          rw [(addSymbol_adds hnew).formulas]
          refine FormulaTable.forall_get?_insert hnew (fun g hg hy => ?_) hright ?_
          · rw [hy, hr _ _ hg]
          · rw [hlead]
            exact hsymbols y hy
      | @tie f t hf hnew ht =>
          have hnames : ∀ y, .var y ∈ F → t.name ≠ e.lead ++ y := by
            intro y hy
            rw [hlead]
            exact hapart y hy t (by simp)
          refine ⟨Function.update point t.name (r f), fun y hy => ?_, ?_⟩
          · rw [← hlead, Function.update_of_ne (hnames y hy).symm, hlead]
            exact hsymbols y hy
          · rw [(withTie_adds hnew).formulas]
            refine FormulaTable.forall_get?_insert hnew (fun g hg hf => ?_) (fun g x hx => ?_) ?_
            · rw [hf, hr _ _ hg]
            · rw [Function.update_of_ne ((Run.tidy run).name_ne ht hnames hx)]
              exact hright g x hx
            · exact Function.update_self _ _ _

/-- Every valuation extends to a point at which all bits are right. -/
theorem Run.exists_truthful {lead : String} (h : Run F { lead } e)
    (hapart : ∀ y, .var y ∈ F → ∀ t ∈ e.ties, t.name ≠ lead ++ y) (v : Valuation) :
    ∃ bits, e.Extends F v bits ∧ e.Truthful bits := by
  obtain ⟨bits, hsymbols, hright⟩ :=
    h.exists_point hapart (·.eval v) fun _ _ => Formula.eval_eq_of_alike
  have hbits : e.Extends F v bits := by
    rw [Extends, h.lead_eq]
    exact hsymbols
  refine ⟨bits, hbits, fun f x hx => ?_⟩
  rw [h.tidy.eval_valuation hbits hx]
  exact hright f x hx

/-! ## Encoding from nothing -/

/-- The encoder that has encoded the formulas, one after the other, and nothing before. -/
abbrev after (lead : String) (fs : List Formula) : Encoder :=
  (encodeAll { lead } fs).2

/-- No symbol of the formulas is named like a bit that a compound formula got. -/
def Apart (e : Encoder) (fs : List Formula) : Prop :=
  ∀ f ∈ fs, ∀ y ∈ f.names, ∀ t ∈ e.ties, t.name ≠ e.lead ++ y

instance (e : Encoder) (fs : List Formula) : Decidable (e.Apart fs) :=
  inferInstanceAs (Decidable (∀ f ∈ fs, ∀ y ∈ f.names, ∀ t ∈ e.ties, t.name ≠ e.lead ++ y))

lemma Apart.ne_of_mem {fs : List Formula} (h : e.Apart fs) (y : String)
    (hy : .var y ∈ partsOf fs) (t : Tie) (ht : t ∈ e.ties) : t.name ≠ e.lead ++ y := by
  obtain ⟨f, hf, hy⟩ := Formula.var_mem_partsOf.1 hy
  exact h f hf y hy t ht

section After

variable {lead : String} {fs : List Formula}

lemma after_run : Run (partsOf fs) { lead } (after lead fs) :=
  (encodeAll_run { lead } fs).1

@[simp] lemma after_lead : (after lead fs).lead = lead :=
  after_run.lead_eq

lemma after_extends_iff : (after lead fs).Extends (partsOf fs) v bits ↔
    ∀ f ∈ fs, ∀ y ∈ f.names, bits (lead ++ y) = v y := by
  simp only [Extends, Formula.var_mem_partsOf, after_lead]
  exact ⟨fun h f hf y hy => h y ⟨f, hf, hy⟩, fun h y ⟨f, hf, hy⟩ => h f hf y hy⟩

/-- Every part of an encoded formula has a bit, also where the formula had its bit before. -/
lemma exists_get?_after (hf : f ∈ fs) (hg : g ∈ f.subformulas) :
    ∃ x, (after lead fs).formulas.get? g = some x := by
  obtain ⟨x, -, hx⟩ := exists_mem_encodeAll hf
  exact after_run.tidy.parts f x hx g hg

lemma after_truthful_iff : (after lead fs).Truthful bits ↔
    ∀ f ∈ fs, ∀ g ∈ f.subformulas,
      bits ((after lead fs).nameOf g) = g.eval fun y => bits (lead ++ y) := by
  have hvaluation : (after lead fs).valuation bits = fun y => bits (lead ++ y) := by
    funext y
    rw [valuation, after_lead]
  simp only [Truthful, hvaluation]
  constructor
  · intro htrue f hf g hg
    obtain ⟨x, hx⟩ := exists_get?_after hf hg
    rw [nameOf, hx]
    exact htrue g x hx
  · intro hshown g x hx
    -- the formula itself may never have been handed in, only one alike
    obtain ⟨k, ⟨f, hf, hk⟩, hkg⟩ := after_run.tidy.among g x hx
    have hname : (after lead fs).nameOf k = x.name := by
      rw [nameOf, FormulaTable.get?_congr hkg, hx]
      rfl
    rw [← hname, hshown f hf k hk, Formula.eval_eq_of_alike hkg]

end After

/-! ## The energy of the ties -/

variable {K : Type} [Field K] [LinearOrder K] [IsStrictOrderedRing K] {w : K}

lemma cost_energy_eq_zero_iff (hw : 0 < w) : (e.energy w).cost bits = 0 ↔ e.Kept bits := by
  have hsum := Energy.sum_map_eq_zero_iff fun t (_ : t ∈ e.ties) => Tie.cost_nonneg (K := K) t bits
  rw [energy, Energy.cost_weightedSum, Energy.cost_weight, mul_eq_zero, or_iff_right hw.ne',
    List.map_map, Function.comp_def, hsum]
  exact forall₂_congr fun t _ => Tie.cost_eq_zero_iff

lemma cost_energy_nonneg (hw : 0 ≤ w) : 0 ≤ (e.energy w).cost bits := by
  rw [energy, Energy.cost_weightedSum, List.map_map]
  exact mul_nonneg hw (Energy.sum_map_nonneg fun t _ => Tie.cost_nonneg t bits)

/-- **The energy of the ties encodes the truth tables.** Formulas are encoded one after the other
from nothing, and no symbol is named like a bit of a compound formula.  Then every formula keeps
the bit it was given, and every part of it has a bit; no tie costs less than nothing; all ties
together cost nothing exactly at the points where every bit shows the truth value of its formula;
and each valuation of the symbols extends to exactly one such point on the encoder's bits. -/
theorem energy_encodes_truth (lead : String) (fs : List Formula) (hw : 0 < w)
    (hapart : (after lead fs).Apart fs) :
    fs.map (after lead fs).formulas.get? = (encodeAll { lead } fs).1.map some ∧
    (∀ f ∈ fs, ∀ g ∈ f.subformulas, ∃ x, (after lead fs).formulas.get? g = some x) ∧
    (∀ bits, ∀ t ∈ (after lead fs).ties, 0 ≤ (t.energy : Energy K).cost bits) ∧
    (∀ bits, ((after lead fs).energy w).cost bits = 0 ↔
      ∀ f ∈ fs, ∀ g ∈ f.subformulas,
        bits ((after lead fs).nameOf g) = g.eval fun y => bits (lead ++ y)) ∧
    ∀ v : Valuation, ∃ bits : Valuation,
      ((∀ f ∈ fs, ∀ y ∈ f.names, bits (lead ++ y) = v y) ∧
        ((after lead fs).energy w).cost bits = 0) ∧
      ∀ bits' : Valuation, (∀ f ∈ fs, ∀ y ∈ f.names, bits' (lead ++ y) = v y) →
        ((after lead fs).energy w).cost bits' = 0 →
        ∀ n ∈ (after lead fs).bits.toList, bits' n = bits n := by
  have hcost : ∀ bits, ((after lead fs).energy w).cost bits = 0 ↔ (after lead fs).Truthful bits :=
    fun bits => (cost_energy_eq_zero_iff hw).trans after_run.kept_iff_truthful
  refine ⟨(encodeAll_run _ fs).2, fun f hf g hg => exists_get?_after hf hg,
    fun bits t _ => Tie.cost_nonneg t bits, fun bits => (hcost bits).trans after_truthful_iff,
    fun v => ?_⟩
  have hsymbols := hapart.ne_of_mem
  rw [after_lead] at hsymbols
  obtain ⟨bits, hbits, htrue⟩ := after_run.exists_truthful hsymbols v
  refine ⟨bits, ⟨after_extends_iff.1 hbits, (hcost bits).2 htrue⟩, ?_⟩
  intro bits' hbits' hcost' n hn
  exact after_run.tidy.point_unique (after_extends_iff.2 hbits') ((hcost bits').1 hcost') hbits
    htrue hn

/-- Two conjunctions that share a bit, one whose sides coincide, and a negation of it, behind a lead
that a symbol begins with too. -/
theorem energy_encodes_truth_shared :
    let fs : List Formula := [.conj (.var "P") (.var "zP"), .conj (.var "zP") (.var "P"),
      .neg (.conj (.var "P") (.var "P"))]
    (after "z" fs).Apart fs ∧ ∀ bits, ((after "z" fs).energy (1 : ℚ)).cost bits = 0 ↔
      ∀ f ∈ fs, ∀ g ∈ f.subformulas,
        bits ((after "z" fs).nameOf g) = g.eval fun y => bits ("z" ++ y) :=
  ⟨by decide, (energy_encodes_truth "z" _ one_pos (by decide)).2.2.2.1⟩

end Encoder

end AnnealProver
