import Mathlib.Data.List.Induction
import AnnealProver.Proofs.Encoding
import AnnealProver.Proofs.Keys
import AnnealProver.Proofs.RoundTrip

/-!
# When bits have names of their own

An encoder is called again and again, and a call may ask for a new bit where a formula has one
already.  So a formula can have had several bits, and to say that no two different formulas ever
shared a name one has to look at all that the table was **given** in the course of time
(`Given`).

What happens to the table is one thing after the other: a variable is given the bit of its name, or
a compound formula one with a new number (`Gives`).  The `History` of an encoder lists them all.
Compound formulas never get the same name, because the number can be read off the name
(`History.formula_unique`), and neither do variables.  But a variable may be named like the bit of a
compound formula, and nothing prevents that: the names differ exactly where the symbols are kept
apart from the new names (`names_differ_iff_apart`), and there are names to be read that are not
(`name_shared_with_symbol`).
-/

namespace AnnealProver

lemma Formula.size_le_of_mem_subformulas {f g : Formula} (h : g ∈ f.subformulas) :
    g.size ≤ f.size := by
  induction f using Formula.connectiveInduction with
  | var a => simp_all [subformulas]
  | neg a ih =>
      rcases List.mem_cons.1 h with rfl | h
      · exact le_rfl
      · have := ih h
        simp only [size]
        omega
  | join c a b iha ihb =>
      rw [subformulas_apply, List.mem_cons, List.mem_append] at h
      rw [size_apply]
      rcases h with rfl | h | h
      · rw [size_apply]
      · have := iha h
        omega
      · have := ihb h
        omega

lemma Formula.not_alike_var {f : Formula} {a : String} (h : f.isVar = false) :
    f.alike (.var a) = false := by
  cases f <;> simp_all [alike, isVar]

/-- A key that is written is found with its new value, whether or not it had one before. -/
lemma FormulaTable.get?_insert_eq {υ : Type} {t : FormulaTable υ} {f g : Formula} {value : υ} :
    (t.insert f value).get? g = if f.alike g = true then some value else t.get? g := by
  cases hknown : t.contains f with
  | false => exact get?_insert (get?_eq_none.2 hknown)
  | true =>
      have hkeys : ((fun entry : Formula × υ => entry.1.alike g) ∘ fun entry =>
          if entry.1.alike f = true then (entry.1, value) else entry) =
          fun entry => entry.1.alike g := by
        funext entry
        simp only [Function.comp_apply]
        split_ifs <;> rfl
      simp only [Table.get?, Table.insert, hknown, if_true, List.find?_map, hkeys, Option.map_map]
      cases hfind : t.entries.find? fun entry => entry.1.alike g with
      | none =>
          rw [List.find?_eq_none] at hfind
          obtain ⟨entry, hentry, hf⟩ := List.any_eq_true.1 hknown
          have hother : ¬ f.alike g = true :=
            fun hfg => hfind entry hentry (Formula.alike_trans hf hfg)
          simp [hother]
      | some entry =>
          have hg : entry.1.alike g = true := by simpa using List.find?_some hfind
          have hsame : entry.1.alike f = true ↔ f.alike g = true :=
            ⟨fun hf => Formula.alike_trans (Formula.alike_symm hf) hg,
              fun hf => Formula.alike_trans hg (Formula.alike_symm hf)⟩
          simp only [Option.map_some, Function.comp_apply, hsame]
          split_ifs <;> rfl

namespace Encoder

open Formula (partsOf)

variable {e e' : Encoder} {F G : Set Formula} {f g : Formula} {x y : Encoded} {t : Tie}
  {lead : String} {given : List (Formula × Encoded)}

/-! ## What the table is given -/

/-- One formula of `F` is given a bit, in place of any that it had. -/
inductive Gives (F : Set Formula) (e : Encoder) : Formula → Encoded → Encoder → Prop
  | symbol {a : String} (ha : .var a ∈ F) :
      Gives F e (.var a) ⟨e.lead ++ a, .var a, none⟩ (e.addSymbol a).2
  | tie {f : Formula} {t : Tie} (hf : f ∈ F) (ht : e.NewTie f t) :
      Gives F e f ⟨t.name, f, some t⟩ (e.withTie f t)

lemma Step.exists_gives (h : Step F e e') : ∃ f x, Gives F e f x e' := by
  cases h with
  | symbol hx _ => exact ⟨_, _, .symbol hx⟩
  | tie hf _ ht => exact ⟨_, _, .tie hf ht⟩

lemma NewTie.isVar_eq_false (ht : e.NewTie f t) : f.isVar = false := by
  cases ht with
  | neg _ => rfl
  | @join c _ _ _ _ _ _ => cases c <;> rfl

namespace Gives

lemma mono (hFG : F ⊆ G) (h : Gives F e f x e') : Gives G e f x e' := by
  cases h with
  | symbol ha => exact .symbol (hFG ha)
  | tie hf ht => exact .tie (hFG hf) ht

lemma mem (h : Gives F e f x e') : f ∈ F := by
  cases h with
  | symbol ha => exact ha
  | tie hf _ => exact hf

lemma lead_eq (h : Gives F e f x e') : e'.lead = e.lead := by
  cases h with
  | symbol _ =>
      simp only [addSymbol, keep]
      split_ifs <;> rfl
  | tie _ _ => rfl

lemma get?_eq (h : Gives F e f x e') :
    e'.formulas.get? g = if f.alike g = true then some x else e.formulas.get? g := by
  have hformulas : e'.formulas = e.formulas.insert f x := by
    cases h with
    | symbol _ =>
        simp only [addSymbol, keep]
        split_ifs <;> rfl
    | tie _ _ => rfl
  rw [hformulas, FormulaTable.get?_insert_eq]

lemma get?_self (h : Gives F e f x e') : e'.formulas.get? f = some x := by
  rw [h.get?_eq, if_pos (Formula.alike_refl f)]

/-- A formula never loses its bit, though it may get another one. -/
lemma exists_get? (h : Gives F e f x e') (hy : e.formulas.get? g = some y) :
    ∃ z, e'.formulas.get? g = some z := by
  rw [h.get?_eq]
  split_ifs
  · exact ⟨x, rfl⟩
  · exact ⟨y, hy⟩

lemma ties_subset (h : Gives F e f x e') : e.ties ⊆ e'.ties := by
  cases h <;> simp

/-- A tie that was not there before is that of the formula. -/
lemma of_mem_ties (h : Gives F e f x e') (ht : t ∈ e'.ties) :
    t ∈ e.ties ∨ (f.isVar = false ∧ x.name = t.name) := by
  cases h with
  | symbol _ =>
      rw [addSymbol_ties] at ht
      exact Or.inl ht
  | tie _ hnewTie =>
      rcases List.mem_append.1 ht with ht | ht
      · exact Or.inl ht
      · obtain rfl := List.mem_singleton.1 ht
        exact Or.inr ⟨hnewTie.isVar_eq_false, rfl⟩

lemma counter_le (h : Gives F e f x e') : e.counter ≤ e'.counter := by
  cases h with
  | symbol _ => exact (addSymbol_counter _).ge
  | tie _ _ => exact Nat.le_succ _

end Gives

/-! ## Histories -/

/-- The encoder began with an empty table, which was given these bits, the latest first. -/
inductive History (F : Set Formula) (lead : String) : List (Formula × Encoded) → Encoder → Prop
  | start : History F lead [] { lead }
  | give {given : List (Formula × Encoded)} {e e' : Encoder} {f : Formula} {x : Encoded}
      (h : History F lead given e) (step : Gives F e f x e') :
      History F lead ((f, x) :: given) e'

namespace History

lemma mono (hFG : F ⊆ G) (h : History F lead given e) : History G lead given e := by
  induction h with
  | start => exact .start
  | give _ step ih => exact .give ih (step.mono hFG)

lemma lead_eq (h : History F lead given e) : e.lead = lead := by
  induction h with
  | start => rfl
  | give _ step ih => rw [step.lead_eq, ih]

lemma mem (h : History F lead given e) (hx : (f, x) ∈ given) : f ∈ F := by
  induction h with
  | start => simp at hx
  | give _ step ih =>
      rcases List.mem_cons.1 hx with hx | hx
      · cases hx
        exact step.mem
      · exact ih hx

/-- A bit is named after its variable, or it is a tied one with a number. -/
lemma named (h : History F lead given e) (hx : (f, x) ∈ given) :
    (∃ a, f = .var a ∧ x.name = lead ++ a) ∨
      (f.isVar = false ∧ (∃ t ∈ e.ties, t.name = x.name) ∧
        ∃ k ≤ e.counter, Numbered k x.name) := by
  induction h with
  | start => simp at hx
  | @give given e e' g y h step ih =>
      rcases List.mem_cons.1 hx with hx | hx
      · cases hx
        cases step with
        | @symbol a _ => exact Or.inl ⟨a, rfl, by rw [h.lead_eq]⟩
        | @tie _ t _ ht =>
            exact Or.inr ⟨ht.isVar_eq_false, ⟨t, by simp, rfl⟩, e.counter + 1, le_rfl, ht.numbered⟩
      · rcases ih hx with hsymbol | ⟨hvar, ⟨t, ht, hname⟩, k, hk, hnumbered⟩
        · exact Or.inl hsymbol
        · exact Or.inr ⟨hvar, ⟨t, step.ties_subset ht, hname⟩, k, hk.trans step.counter_le,
            hnumbered⟩

/-- A bit with a new number has not been given before. -/
lemma name_ne_of_newTie (h : History F lead given e) (hx : (f, x) ∈ given) (hf : f.isVar = false)
    (ht : e.NewTie g t) : x.name ≠ t.name := by
  intro hname
  rcases h.named hx with ⟨a, rfl, -⟩ | ⟨-, -, k, hk, hnumbered⟩
  · simp [Formula.isVar] at hf
  · rw [hname] at hnumbered
    have := hnumbered.unique ht.numbered
    omega

/-- **Compound formulas have names of their own.** -/
lemma formula_unique (h : History F lead given e) (hx : (f, x) ∈ given) (hy : (g, y) ∈ given)
    (hf : f.isVar = false) (hg : g.isVar = false) (hname : x.name = y.name) : f = g := by
  induction h with
  | start => simp at hx
  | give h step ih =>
      rcases List.mem_cons.1 hx with hfirst | hearlier <;>
        rcases List.mem_cons.1 hy with hfirst' | hearlier'
      · cases hfirst
        cases hfirst'
        rfl
      · cases hfirst
        cases step with
        | symbol _ => simp [Formula.isVar] at hf
        | tie _ ht => exact absurd hname.symm (h.name_ne_of_newTie hearlier' hg ht)
      · cases hfirst'
        cases step with
        | symbol _ => simp [Formula.isVar] at hg
        | tie _ ht => exact absurd hname (h.name_ne_of_newTie hearlier hf ht)
      · exact ih hearlier hearlier'

/-- What is in the table was given to it, perhaps for another spelling of the formula. -/
lemma exists_of_get? (h : History F lead given e) (hx : e.formulas.get? g = some x) :
    ∃ f, (f, x) ∈ given ∧ f.alike g = true := by
  induction h with
  | start => simp at hx
  | @give given e e' f y h step ih =>
      rw [step.get?_eq] at hx
      split_ifs at hx with hfg
      · cases hx
        exact ⟨f, List.mem_cons_self, hfg⟩
      · exact (ih hx).imp fun k hk => ⟨List.mem_cons_of_mem _ hk.1, hk.2⟩

/-- The variables of a formula with a bit have bits. -/
lemma exists_get?_var (h : History F lead given e) (hx : e.formulas.get? g = some x) {a : String}
    (ha : a ∈ g.names) : ∃ z, e.formulas.get? (.var a) = some z := by
  induction h generalizing g x with
  | start => simp at hx
  | @give given e e' f y h step ih =>
      rw [step.get?_eq] at hx
      split_ifs at hx with hfg
      · rw [← Formula.mem_names_iff_of_alike hfg] at ha
        have hparts : f = .var a ∨ ∃ k z, e.formulas.get? k = some z ∧ a ∈ k.names := by
          cases step with
          | symbol _ => exact Or.inl (by simpa [Formula.names, eq_comm] using ha)
          | tie _ ht =>
              cases ht with
              | neg hk => exact Or.inr ⟨_, _, hk, ha⟩
              | join hk hl =>
                  rw [Formula.names_apply, List.mem_append] at ha
                  exact Or.inr (ha.elim (fun ha => ⟨_, _, hk, ha⟩) fun ha => ⟨_, _, hl, ha⟩)
        rcases hparts with rfl | ⟨k, z, hk, ha⟩
        · exact ⟨y, step.get?_self⟩
        · obtain ⟨z, hz⟩ := ih hk ha
          exact step.exists_get? hz
      · obtain ⟨z, hz⟩ := ih hx ha
        exact step.exists_get? hz

lemma exists_of_run (h : History F lead given e) (hrun : Run F e e') :
    ∃ recent, History F lead (recent ++ given) e' := by
  induction hrun with
  | refl => exact ⟨[], h⟩
  | tail _ step ih =>
      obtain ⟨recent, hrecent⟩ := ih
      obtain ⟨f, x, hgives⟩ := step.exists_gives
      exact ⟨(f, x) :: recent, .give hrecent hgives⟩

end History

/-! ## Calls -/

lemma encode_anew_join {c : Connective} {a b : Formula} {anew : Bool}
    (h : (if anew then none else e.formulas.get? (c.apply a b)) = none) :
    e.encode (c.apply a b) anew =
      ((e.encode a).2.encode b).2.addJoin (c.apply a b) c (e.encode a).1
        ((e.encode a).2.encode b).1 := by
  cases c <;> simp only [Connective.apply] at h ⊢ <;> simp [encode, h]

/-- A call looks the formula up, or it gives bits to smaller parts where they have none and then one
to the formula itself. -/
lemma encode_cases (e : Encoder) (f : Formula) (anew : Bool) :
    (e.formulas.get? f = some (e.encode f anew).1 ∧ (e.encode f anew).2 = e) ∨
      ∃ e₁, Run {g | g ∈ f.subformulas ∧ g.size < f.size} e e₁ ∧
        Gives {g | g ∈ f.subformulas} e₁ f (e.encode f anew).1 (e.encode f anew).2 := by
  cases h : (if anew then none else e.formulas.get? f) with
  | some known =>
      left
      have hknown : e.formulas.get? f = some known := by
        cases anew <;> simp_all
      have hencode : e.encode f anew = (known, e) := by
        cases f <;> simp only [encode, h]
      exact ⟨by rw [hencode, hknown], by rw [hencode]⟩
  | none =>
      right
      induction f using Formula.connectiveInduction with
      | var a =>
          have hencode : e.encode (.var a) anew = e.addSymbol a := by simp [encode, h]
          rw [hencode]
          exact ⟨e, .refl, .symbol (Formula.self_mem_subformulas _)⟩
      | neg a =>
          have hencode : e.encode (.neg a) anew =
              (e.encode a).2.addNeg (.neg a) (e.encode a).1 := by
            simp [encode, h]
          rw [hencode]
          have ha := encode_encodes e a
          refine ⟨(e.encode a).2, ha.run.mono fun g hg => ?_,
            .tie (Formula.self_mem_subformulas _) (.neg ha.found)⟩
          have := Formula.size_le_of_mem_subformulas hg
          exact ⟨List.mem_cons_of_mem _ hg, by simp only [Formula.size]; omega⟩
      | join c a b =>
          rw [encode_anew_join h]
          have ha := encode_encodes e a
          have hb := encode_encodes (e.encode a).2 b
          refine ⟨((e.encode a).2.encode b).2,
            (ha.run.mono fun g hg => ?_).trans (hb.run.mono fun g hg => ?_),
            .tie (Formula.self_mem_subformulas _) (.join (hb.run.get?_of_some ha.found) hb.found)⟩
          · have := Formula.size_le_of_mem_subformulas hg
            exact ⟨by simp [Formula.subformulas_apply, show g ∈ a.subformulas from hg],
              by rw [Formula.size_apply]; omega⟩
          · have := Formula.size_le_of_mem_subformulas hg
            exact ⟨by simp [Formula.subformulas_apply, show g ∈ b.subformulas from hg],
              by rw [Formula.size_apply]; omega⟩

/-- The ties that a run has added belong to formulas that are in the table now. -/
lemma Run.exists_get?_of_tie (h : Run F e e') (ht : t ∈ e'.ties) :
    t ∈ e.ties ∨ ∃ g ∈ F, g.isVar = false ∧ ∃ x, e'.formulas.get? g = some x ∧ x.name = t.name := by
  induction h with
  | refl => exact Or.inl ht
  | @tail e₁ e₂ _ step ih =>
      obtain ⟨f, y, hadds⟩ := step.exists_adds
      have hold : t ∈ e₁.ties → t ∈ e.ties ∨ ∃ g ∈ F, g.isVar = false ∧
          ∃ x, e₂.formulas.get? g = some x ∧ x.name = t.name := by
        intro ht
        refine (ih ht).imp_right ?_
        rintro ⟨g, hg, hvar, x, hx, hname⟩
        exact ⟨g, hg, hvar, x, hadds.get?_of_some hx, hname⟩
      cases step with
      | symbol _ _ => exact hold (by simpa using ht)
      | tie hf hnew hnewTie =>
          rcases List.mem_append.1 ht with ht | ht
          · exact hold ht
          · obtain rfl := List.mem_singleton.1 ht
            exact Or.inr ⟨_, hf, hnewTie.isVar_eq_false, _, (withTie_adds hnew).get?_self, rfl⟩

/-- So do the ties that a call has added.  The formula of the call is larger than its parts, so it
does not take their place in the table. -/
lemma exists_get?_of_tie_encode {anew : Bool} (ht : t ∈ (e.encode f anew).2.ties) :
    t ∈ e.ties ∨ ∃ g x, (e.encode f anew).2.formulas.get? g = some x ∧ g.isVar = false ∧
      x.name = t.name := by
  rcases encode_cases e f anew with ⟨-, hsame⟩ | ⟨e₁, hrun, hgives⟩
  · rw [hsame] at ht
    exact Or.inl ht
  · rcases hgives.of_mem_ties ht with ht | ⟨hvar, hname⟩
    · refine (hrun.exists_get?_of_tie ht).imp_right ?_
      rintro ⟨g, ⟨-, hsize⟩, hvar, x, hx, hname⟩
      have hother : ¬ f.alike g = true := by
        intro hfg
        have := Formula.size_eq_of_alike hfg
        omega
      exact ⟨g, x, by rw [hgives.get?_eq, if_neg hother, hx], hvar, hname⟩
    · exact Or.inr ⟨f, _, hgives.get?_self, hvar, hname⟩

/-- The encoder after some calls, each with a formula and whether a new bit is asked for. -/
def afterCalls (lead : String) (calls : List (Formula × Bool)) : Encoder :=
  calls.foldl (fun e call => (e.encode call.1 call.2).2) { lead }

/-- At some time in the course of the calls, the formula had this bit. -/
def Given (lead : String) (calls : List (Formula × Bool)) (f : Formula) (x : Encoded) : Prop :=
  ∃ past, past <+: calls ∧ (afterCalls lead past).formulas.get? f = some x

section Calls

variable {calls past : List (Formula × Bool)} {anew : Bool}

lemma afterCalls_concat : afterCalls lead (calls ++ [(f, anew)]) =
    ((afterCalls lead calls).encode f anew).2 := by
  simp [afterCalls]

lemma Given.mono (h : Given lead past f x) (hpast : past <+: calls) : Given lead calls f x := by
  obtain ⟨earlier, hearlier, hx⟩ := h
  exact ⟨earlier, hearlier.trans hpast, hx⟩

/-- What a call returns is what the formula has then. -/
lemma get?_afterCalls_concat : (afterCalls lead (past ++ [(f, anew)])).formulas.get? f =
    some ((afterCalls lead past).encode f anew).1 := by
  rw [afterCalls_concat]
  rcases encode_cases (afterCalls lead past) f anew with ⟨hknown, hsame⟩ | ⟨e₁, -, hgives⟩
  · rw [hsame, hknown]
  · exact hgives.get?_self

/-- A history of the encoder that has all bits that any formula ever had. -/
lemma exists_history (lead : String) (calls : List (Formula × Bool)) :
    ∃ given, History (partsOf (calls.map Prod.fst)) lead given (afterCalls lead calls) ∧
      ∀ f x, Given lead calls f x → ∃ g, (g, x) ∈ given ∧ g.alike f = true := by
  induction calls using List.reverseRecOn with
  | nil =>
      refine ⟨[], .start, ?_⟩
      rintro f x ⟨past, hpast, hx⟩
      obtain rfl := List.prefix_nil.1 hpast
      simp [afterCalls] at hx
  | append_singleton calls call ih =>
      obtain ⟨f, anew⟩ := call
      obtain ⟨given, hgiven, hall⟩ := ih
      have hpartsOf : partsOf (calls.map Prod.fst) ⊆
          partsOf ((calls ++ [(f, anew)]).map Prod.fst) := by
        rintro g ⟨k, hk, hg⟩
        exact ⟨k, by simp only [List.map_append, List.mem_append]; exact Or.inl hk, hg⟩
      have hparts : {g | g ∈ f.subformulas} ⊆ partsOf ((calls ++ [(f, anew)]).map Prod.fst) :=
        fun g hg => ⟨f, by simp, hg⟩
      have hgiven := hgiven.mono hpartsOf
      -- all bits that there were before, and all that the call has brought
      have hlater : ∃ recent, History (partsOf ((calls ++ [(f, anew)]).map Prod.fst)) lead
          (recent ++ given) (afterCalls lead (calls ++ [(f, anew)])) := by
        rw [afterCalls_concat]
        rcases encode_cases (afterCalls lead calls) f anew with ⟨-, hsame⟩ | ⟨e₁, hrun, hgives⟩
        · exact ⟨[], by rw [hsame]; exact hgiven⟩
        · obtain ⟨recent, hrecent⟩ := hgiven.exists_of_run
            (hrun.mono fun g hg => hparts hg.1)
          exact ⟨_ :: recent, .give hrecent (hgives.mono hparts)⟩
      obtain ⟨recent, hrecent⟩ := hlater
      refine ⟨_, hrecent, ?_⟩
      rintro g x ⟨past, hpast, hx⟩
      rcases List.prefix_concat_iff.1 hpast with rfl | hpast
      · exact hrecent.exists_of_get? hx
      · exact (hall g x ⟨past, hpast, hx⟩).imp fun k hk => ⟨List.mem_append_right _ hk.1, hk.2⟩

/-- Every variable of a formula that was handed in had the bit of its name. -/
lemma exists_given_var (hf : f ∈ calls.map Prod.fst) {a : String} (ha : a ∈ f.names) :
    ∃ x, Given lead calls (.var a) x ∧ x.name = lead ++ a := by
  obtain ⟨⟨f, anew⟩, hcall, rfl⟩ := List.mem_map.1 hf
  obtain ⟨past, rest, rfl⟩ := List.append_of_mem hcall
  have hpast : past ++ [(f, anew)] <+: past ++ (f, anew) :: rest := ⟨rest, by simp⟩
  obtain ⟨given, hgiven, -⟩ := exists_history lead (past ++ [(f, anew)])
  obtain ⟨x, hx⟩ := hgiven.exists_get?_var get?_afterCalls_concat ha
  obtain ⟨g, hg, hga⟩ := hgiven.exists_of_get? hx
  refine ⟨x, ⟨_, hpast, hx⟩, ?_⟩
  rcases hgiven.named hg with ⟨b, rfl, hname⟩ | ⟨hvar, -⟩
  · obtain rfl : b = a := by simpa [Formula.alike] using hga
    exact hname
  · simp [Formula.not_alike_var hvar] at hga

/-- Every tie belongs to a compound formula that had its bit. -/
lemma exists_given_of_tie (ht : t ∈ (afterCalls lead calls).ties) :
    ∃ f x, Given lead calls f x ∧ f.isVar = false ∧ x.name = t.name := by
  induction calls using List.reverseRecOn with
  | nil => simp [afterCalls] at ht
  | append_singleton calls call ih =>
      obtain ⟨f, anew⟩ := call
      rw [afterCalls_concat] at ht
      rcases exists_get?_of_tie_encode ht with ht | ⟨g, x, hx, hg⟩
      · obtain ⟨g, x, hx, hg⟩ := ih ht
        exact ⟨g, x, hx.mono (List.prefix_append _ _), hg⟩
      · rw [← afterCalls_concat] at hx
        exact ⟨g, x, ⟨_, List.prefix_refl _, hx⟩, hg⟩

/-- **Bits have names of their own exactly where no symbol is named like a tied bit.**  The table
was given bits by any calls, some of which may have asked for new ones.  What a call returns is
among them.  All of them together have different names for formulas that are not alike if and only
if the symbols are apart from the ties; and they are where no symbol ends with a number behind an
underscore. -/
theorem names_differ_iff_apart (lead : String) (calls : List (Formula × Bool)) :
    (∀ past f anew, past ++ [(f, anew)] <+: calls →
      Given lead calls f ((afterCalls lead past).encode f anew).1) ∧
    ((∀ f g x y, Given lead calls f x → Given lead calls g y → f.alike g = false →
        x.name ≠ y.name) ↔
      (afterCalls lead calls).Apart (calls.map Prod.fst)) ∧
    ((∀ f ∈ calls.map Prod.fst, ∀ a ∈ f.names, ∀ k, ¬ Numbered k (lead ++ a)) →
      (afterCalls lead calls).Apart (calls.map Prod.fst)) := by
  obtain ⟨given, hgiven, hall⟩ := exists_history lead calls
  have hlead := hgiven.lead_eq
  refine ⟨fun past f anew hpast => ⟨_, hpast, get?_afterCalls_concat⟩, ⟨?_, ?_⟩, ?_⟩
  · intro hdiffer f hf a ha t ht hname
    obtain ⟨g, x, hx, hvar, hxname⟩ := exists_given_of_tie ht
    obtain ⟨y, hy, hyname⟩ := exists_given_var hf ha
    rw [hlead] at hname
    exact hdiffer g (.var a) x y hx hy (Formula.not_alike_var hvar)
      (by rw [hxname, hname, hyname])
  · intro hapart f g x y hx hy hdiffers hname
    obtain ⟨f', hf', hff'⟩ := hall f x hx
    obtain ⟨g', hg', hgg'⟩ := hall g y hy
    have hsymbol : ∀ {a : String} {z : Encoded}, (.var a, z) ∈ given →
        ∀ t ∈ (afterCalls lead calls).ties, t.name ≠ lead ++ a := by
      intro a z hz t ht
      rw [← hlead]
      exact hapart.ne_of_mem a (hgiven.mem hz) t ht
    have hsame : f' = g' := by
      rcases hgiven.named hf' with ⟨a, rfl, ha⟩ | ⟨hvar, ⟨t, ht, htname⟩, -⟩ <;>
        rcases hgiven.named hg' with ⟨b, rfl, hb⟩ | ⟨hvar', ⟨u, hu, huname⟩, -⟩
      · rw [ha, hb] at hname
        rw [String.append_right_inj] at hname
        rw [hname]
      · exact absurd (huname.trans (hname.symm.trans ha)) (hsymbol hf' u hu)
      · exact absurd (htname.trans (hname.trans hb)) (hsymbol hg' t ht)
      · exact hgiven.formula_unique hf' hg' hvar hvar' hname
    subst hsame
    have halike := Formula.alike_trans (Formula.alike_symm hff') hgg'
    simp [hdiffers] at halike
  · intro hnone f hf a ha t ht hname
    obtain ⟨g, x, hx, hvar, hxname⟩ := exists_given_of_tie ht
    obtain ⟨g', hg', hgg'⟩ := hall g x hx
    rcases hgiven.named hg' with ⟨b, rfl, -⟩ | ⟨-, -, k, -, hnumbered⟩
    · have hgb := Formula.alike_symm hgg'
      simp [Formula.not_alike_var hvar] at hgb
    · rw [hxname, hname, hlead] at hnumbered
      exact hnone f hf a ha k hnumbered

/-- A negation that has had two bits, beside a variable that ends with a number but is not named
like either. -/
theorem names_differ_encoded_anew :
    let symbol := Formula.var "Not_P_3"
    let negation := Formula.neg (.var "P")
    let calls := [(negation, false), (symbol, false), (negation, true)]
    (afterCalls "" calls).Apart (calls.map Prod.fst) ∧
      ∀ f g x y, Given "" calls f x → Given "" calls g y → f.alike g = false →
        x.name ≠ y.name := by
  intro symbol negation calls
  have hapart : (afterCalls "" calls).Apart (calls.map Prod.fst) := by decide +kernel
  exact ⟨hapart, (names_differ_iff_apart "" calls).2.1.2 hapart⟩

/-- **A variable may share its bit with another formula.**  Its name can be read, and the negation
that is encoded after it is given the same. -/
theorem name_shared_with_symbol :
    let symbol := Formula.var "Not_P_1"
    let negation := Formula.neg (.var "P")
    let calls := [(symbol, false), (negation, false)]
    symbol.Writable ∧ negation.Writable ∧ symbol.alike negation = false ∧
      ∃ x y, Given "" calls symbol x ∧ Given "" calls negation y ∧ x.name = y.name := by
  intro symbol negation calls
  have hfirst : Given "" calls symbol ((afterCalls "" []).encode symbol false).1 :=
    ⟨[] ++ [(symbol, false)], ⟨[(negation, false)], rfl⟩, get?_afterCalls_concat⟩
  have hsecond : Given "" calls negation
      ((afterCalls "" [(symbol, false)]).encode negation false).1 :=
    ⟨[(symbol, false)] ++ [(negation, false)], List.prefix_refl _, get?_afterCalls_concat⟩
  exact ⟨by decide +kernel, by decide +kernel, rfl, _, _, hfirst, hsecond, by decide +kernel⟩

end Calls

end Encoder

end AnnealProver
