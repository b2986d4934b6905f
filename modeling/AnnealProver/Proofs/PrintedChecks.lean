import AnnealProver.Proofs.BuiltProblems
import AnnealProver.Proofs.Decoding

/-!
# Samples checked on printed formulas

The check of a sample asks for the bits of the axioms and the goal, and then looks for broken
implications and negations among the formulas in the table, each by cutting its printed text.

**The rule.**  What the cutting comes to is said on formulas: `LabelView.ArrowFault` and
`LabelView.NegationFault`.  A formula is taken for a broken implication although it only has one
somewhere inside, a piece of text that is not the name of a bit counts as zero, and conjunctions and
disjunctions are not looked at.

**Where the rule is right.**  If the axioms and the goal are **elementary**, that is symbols,
negations of symbols and implications between symbols, then the check accepts exactly the samples in
which their bits are one and their ties hold (`LabelProblem.check_iff_faultless`).  The bits that
are added for the gates do no harm, since their formulas are among the axioms.
-/

namespace AnnealProver

/-! ## The rule of the check -/

/-- All bits of the sample have words for names. -/
def Sample.Worded (s : Sample) : Prop :=
  ∀ n ∈ s.keys, Text.IsWord n

/-- A piece of text that is no name counts as zero. -/
lemma Sample.point_of_shows {s : Sample} (hs : s.Worded) {name? : Option String} {text : String}
    (h : Text.Shows name? text) : s.point text = name?.any s.point := by
  cases name? with
  | some x => rw [Option.any_some, show text = x from h]
  | none =>
      obtain ⟨c, hc, hname⟩ := h
      have hfind : s.entries.find? (fun entry => entry.1 == text) = none := by
        rw [List.find?_eq_none]
        intro entry hentry heq
        obtain rfl := beq_iff_eq.1 heq
        have hcontinues := (hs _ (List.mem_map_of_mem hentry)).continues c hc
        rw [hname] at hcontinues
        cases hcontinues
      rw [Option.any_none, point, value, Table.getD, Table.get?, hfind]
      rfl

namespace LabelView

variable {s : Sample} {n : String} {f : Formula}

/-- What is taken for a broken implication: the formula has one implication, its bit is one, it
opens with a symbol that is one and an arrow, and it does not close with a symbol that is one. -/
def ArrowFault (bits : Valuation) (n : String) (f : Formula) : Prop :=
  f.arrows = 1 ∧ bits n = true ∧ f.opener?.any bits = true ∧ f.closer?.any bits = false

/-- What is taken for a broken negation: a bit that is named like the bit of a negation has the
value of the symbol under the negations, or zero if there is more than a symbol. -/
def NegationFault (bits : Valuation) (n : String) (f : Formula) : Prop :=
  namesNegation n = true ∧ (∃ a, .neg a ∈ f.subformulas) ∧ bits n = f.base?.any bits

lemma implicationFault?_eq_none_of_pieces {text left right : String}
    (hseen : Text.occurs "->" text = true) (hpieces : outerArrow? text = some (left, right)) :
    implicationFault? s (n, text) = none ↔
      ¬ (s.point n = true ∧ s.point left = true ∧ s.point right = false) := by
  simp [implicationFault?, hseen, hpieces, Sample.point]

lemma implicationFault?_eq_none_iff (hs : s.Worded) (hf : f.Worded) :
    implicationFault? s (n, f.bracketed) = none ↔ ¬ ArrowFault s.point n f := by
  by_cases harrows : f.arrows = 1
  · obtain ⟨left, right, hpieces, hleft, hright⟩ := Formula.exists_outerArrow? hf harrows
    have hseen : Text.occurs "->" f.bracketed = true :=
      (Formula.hasArrows hf.iffFree hf.words).occursIn (by omega)
    rw [implicationFault?_eq_none_of_pieces hseen hpieces, ArrowFault,
      Sample.point_of_shows hs hleft, and_iff_right harrows]
    rcases hright with hnone | hright
    · simp [hnone]
    · rw [Sample.point_of_shows hs hright]
  · have hnone := Formula.outerArrow?_eq_none hf harrows
    simp [implicationFault?, ArrowFault, hnone, harrows]

lemma negationFault?_eq_none_iff (hbinary : s.Binary) (hs : s.Worded) (hf : f.Worded) :
    negationFault? s (n, f.bracketed) = none ↔ ¬ NegationFault s.point n f := by
  have hseen : Text.occurs "~" f.bracketed = true ↔ ∃ a, .neg a ∈ f.subformulas :=
    Text.occursIn_singleton.trans (Formula.tilde_mem_iff hf.iffFree hf.words)
  rw [NegationFault, ← hseen, ← Sample.point_of_shows hs (Formula.shows_base? hf)]
  -- two values out of zero and one add up to one exactly if they differ
  have hsum : ∀ m k, s.value m + s.value k = 1 ↔ ¬ s.point m = s.point k := by
    intro m k
    rw [hbinary.value_eq m, hbinary.value_eq k]
    cases s.point m <;> cases s.point k <;> decide
  simp [negationFault?, hsum]

/-- No fault is found in a table of formulas. -/
lemma fault?_eq_none_iff (hbinary : s.Binary) (hs : s.Worded) {table : NameTable Formula}
    (htable : ∀ x ∈ table.entries, x.2.Worded) :
    fault? ⟨table.entries.map fun (name, f) => (name, f.bracketed)⟩ s = none ↔
      ∀ x ∈ table.entries, ¬ ArrowFault s.point x.1 x.2 ∧ ¬ NegationFault s.point x.1 x.2 := by
  simp only [fault?, Option.orElse_eq_orElse, Option.orElse_eq_or, Option.or_eq_none_iff,
    List.findSome?_eq_none_iff, List.forall_mem_map, ← forall₂_and]
  refine forall₂_congr fun x hx => ?_
  rw [implicationFault?_eq_none_iff hs (htable x hx),
    negationFault?_eq_none_iff hbinary hs (htable x hx)]

lemma check_fst_iff {axiomBits : List String} {goalBit : String} {formulas : NameTable String} :
    (check axiomBits goalBit formulas s).1 = true ↔
      (∀ n ∈ axiomBits ++ [goalBit], s.point n = true) ∧ fault? formulas s = none := by
  rw [check, List.forall_mem_append, List.forall_mem_singleton]
  cases hfind : axiomBits.find? fun x => s.value x != 1 with
  | some x =>
      have hx : s.point x ≠ true := by simpa [Sample.point] using List.find?_some hfind
      exact iff_of_false Bool.false_ne_true
        fun h => hx (h.1.1 x (List.mem_of_find?_eq_some hfind))
  | none =>
      have hones : ∀ n ∈ axiomBits, s.point n = true := by
        simpa [Sample.point] using List.find?_eq_none.1 hfind
      cases hgoal : s.point goalBit with
      | false =>
          have hvalue : (s.value goalBit != 1) = true := by simpa [Sample.point] using hgoal
          simp [hvalue]
      | true =>
          have hvalue : (s.value goalBit != 1) = false := by simpa [Sample.point] using hgoal
          cases hfault : fault? formulas s with
          | some reason => simp [hvalue]
          | none => simpa [hvalue] using hones

end LabelView

namespace LabelProblem

open LabelEncoder

namespace Built

variable {p : LabelProblem} {s : Sample}

lemma sample_worded (hp : p.Built) (hs : s.keys ⊆ p.bitNames) : s.Worded := by
  intro n hn
  rcases List.mem_append.1 (hs hn) with hn | hn
  · obtain ⟨f, hf⟩ := mem_bits_iff.1 hn
    exact (hp.entries_worded _ hf).1
  · obtain ⟨g, hg, rfl⟩ := List.mem_map.1 hn
    exact hp.isWord_control g hg

/-- **The rule of the check.** -/
lemma check_iff (hp : p.Built) (hbinary : s.Binary) (hs : s.keys ⊆ p.bitNames) :
    (LabelView.check p.axiomBits p.goalBit p.formulaTexts s).1 = true ↔
      (∀ n ∈ p.axiomBits ++ [p.goalBit], s.point n = true) ∧
      ∀ x ∈ p.encoder.formulas.entries, ¬ LabelView.ArrowFault s.point x.1 x.2 ∧
        ¬ LabelView.NegationFault s.point x.1 x.2 := by
  rw [LabelView.check_fst_iff]
  exact and_congr_right fun _ => LabelView.fault?_eq_none_iff hbinary (hp.sample_worded hs)
    fun x hx => (hp.entries_worded x hx).2

end Built

end LabelProblem

/-! ## Problems that are checked as they should be -/

namespace Text

variable {part : List Char}

lemma occursIn_append (hpart : part ≠ []) (as bs : List Char) :
    occursIn part (as ++ (part ++ bs)) = true := by
  obtain ⟨c, part, rfl⟩ := List.exists_cons_of_ne_nil hpart
  induction as with
  | nil => simp [occursIn]
  | cons d as ih => rw [List.cons_append, occursIn, ih, Bool.or_true]

end Text

namespace Formula

variable {f : Formula} {lead n : String} {x : String × Formula} {bits : Valuation}

/-- A symbol, the negation of one, or an implication between two. -/
inductive Elementary : Formula → Prop
  | var (x : String) : Elementary (.var x)
  | neg (x : String) : Elementary (.neg (.var x))
  | impl (x y : String) : Elementary (.impl (.var x) (.var y))

/-- The bit of a symbol has its name. -/
lemma eq_of_var_mem_namings {z : String} (h : (n, .var z) ∈ f.namings lead) : n = z :=
  or_self_iff.1 (exists_lead_of_mem_namings h)

lemma Elementary.mem_namings (hf : f.Elementary) (hx : x ∈ f.namings lead) :
    (∃ z ∈ f.names, x = (z, .var z)) ∨ x = (f.bitName lead, f) := by
  cases hf with
  | var z => exact Or.inr (List.mem_singleton.1 hx)
  | neg z =>
      simp only [namings, List.mem_cons, List.not_mem_nil, or_false] at hx
      rcases hx with rfl | rfl
      · exact Or.inr rfl
      · exact Or.inl ⟨z, by simp [names], rfl⟩
  | impl z w =>
      simp only [namings, List.mem_cons, List.cons_append, List.nil_append, List.not_mem_nil,
        or_false] at hx
      rcases hx with rfl | rfl | rfl
      · exact Or.inr rfl
      · exact Or.inl ⟨z, by simp [names], rfl⟩
      · exact Or.inl ⟨w, by simp [names], rfl⟩

/-- Where such a formula holds, nothing is found wrong with it. -/
lemma Elementary.faultless (hf : f.Elementary) (heval : f.isVar = false → f.eval bits = true)
    (hn : ∀ z, f = .neg (.var z) → bits n = true) :
    ¬ LabelView.ArrowFault bits n f ∧ ¬ LabelView.NegationFault bits n f := by
  cases hf with
  | var z => simp [LabelView.ArrowFault, LabelView.NegationFault, arrows, subformulas]
  | neg z =>
      have hz : bits z = false := by simpa [eval] using heval rfl
      simp [LabelView.ArrowFault, LabelView.NegationFault, arrows, base?, hn z rfl, hz]
  | impl z w =>
      have hzw : bits z = false ∨ bits w = true := by simpa [eval] using heval rfl
      refine ⟨fun hfault => ?_, by simp [LabelView.NegationFault, subformulas]⟩
      obtain ⟨-, -, hz, hw⟩ := hfault
      simp only [opener?, closer?, Option.any_some] at hz hw
      simp [hz, hw] at hzw

/-- Where its bit is one and nothing is found wrong with it, such a formula holds. -/
lemma Elementary.eval_of_faultless (hf : f.Elementary) (hvar : f.isVar = false) (hn : bits n = true)
    (hname : ∀ z, f = .neg (.var z) → LabelView.namesNegation n = true)
    (harrow : ¬ LabelView.ArrowFault bits n f) (hneg : ¬ LabelView.NegationFault bits n f) :
    f.eval bits = true := by
  cases hf with
  | var z => cases hvar
  | neg z =>
      simpa [LabelView.NegationFault, hname z rfl, subformulas, base?, hn, eval] using hneg
  | impl z w =>
      cases hz : bits z with
      | false => simp [eval, hz]
      | true =>
          have hw : bits w = true := by
            simpa [LabelView.ArrowFault, arrows, hn, opener?, closer?, hz] using harrow
          simp [eval, hw]

/-- What stands between the underscores of the name of a bit, with the lead before the first. -/
def nameParts (lead : List Char) : Formula → List (List Char)
  | neg a => [lead, "Not".toList, a.label.toList]
  | impl a b => [lead, "Imp".toList, a.label.toList, b.label.toList]
  | f => [f.label.toList]

/-- A name without underscores in its parts tells which formula it is of. -/
lemma Elementary.nameParts_injective {g : Formula} (hf : f.Elementary) (hg : g.Elementary)
    {lead lead' : List Char} (h : f.nameParts lead = g.nameParts lead') : f = g := by
  cases hf <;> cases hg <;> simp_all [nameParts, label, String.toList_inj]

lemma Elementary.toList_bitName (hf : f.Elementary) :
    (f.bitName (lead ++ "_")).toList = ['_'].intercalate (f.nameParts lead.toList) := by
  cases hf with
  | var z => simp [nameParts, bitName, label]
  | neg z => simp [nameParts, bitName, labelName_neg, label, List.intercalate_cons_cons]
  | impl z w =>
      have hname : (Formula.impl (.var z) (.var w)).labelName (lead ++ "_") =
          lead ++ "_" ++ "Imp" ++ "_" ++ z ++ "_" ++ w := labelName_apply (c := .impl) (by decide)
      simp [nameParts, bitName, hname, label, List.intercalate_cons_cons]

lemma Elementary.underscore_not_mem (hf : f.Elementary) (hplain : ∀ y ∈ f.names, '_' ∉ y.toList)
    (hlead : '_' ∉ lead.toList) : ∀ part ∈ f.nameParts lead.toList, '_' ∉ part := by
  cases hf with
  | var z => simpa [nameParts, label, names] using hplain
  | neg z => simpa [nameParts, label, names, hlead] using hplain
  | impl z w => simpa [nameParts, label, names, hlead] using hplain

/-- Cut at its underscores, a name falls into its parts. -/
lemma Elementary.cut_naming (hf : f.Elementary) (hplain : ∀ y ∈ f.names, '_' ∉ y.toList)
    (hlead : '_' ∉ lead.toList) (hx : x ∈ f.namings (lead ++ "_")) :
    x.2.Elementary ∧ Text.cut ['_'] 0 [] x.1.toList = x.2.nameParts lead.toList := by
  rcases hf.mem_namings hx with ⟨z, hz, rfl⟩ | rfl
  · exact ⟨.var z, Text.cut_last (hplain z hz) []⟩
  · refine ⟨hf, ?_⟩
    have hsome : f.nameParts lead.toList ≠ [] := by cases hf <;> simp [nameParts]
    rw [hf.toList_bitName, Text.cut_intercalate hsome (hf.underscore_not_mem hplain hlead)]

lemma Elementary.iffFree (hf : f.Elementary) : f.IffFree := by
  cases hf with
  | var z => exact .var z
  | neg z => exact .neg (.var z)
  | impl z w => exact .join (c := .impl) (by decide) (.var z) (.var w)

end Formula

namespace LabelProblem

open LabelEncoder

variable {axioms : List Formula} {goal : Formula} {call : String × Formula} {bits : Valuation}

/-- The bit of a negation among the axioms or as the goal is known by its name. -/
lemma namesNegation_of_mem_demands (h : call ∈ demands axioms goal) {a : Formula}
    (hneg : call.2 = .neg a) : LabelView.namesNegation (call.2.bitName call.1) = true := by
  obtain ⟨-, lead, hlead, -, hkind⟩ := exists_of_mem_demands h
  rw [hneg, hlead, Formula.bitName_neg, Formula.labelName_neg]
  rcases hkind with rfl | ⟨j, rfl⟩
  · simp [LabelView.namesNegation, Text.begins]
  · have htext : ("Axiom" ++ j.repr ++ "_" ++ "Not_" ++ a.label).toList =
        ("Axiom" ++ j.repr).toList ++ ("_Not_".toList ++ a.label.toList) := by
      simp
    have hoccurs : Text.occurs "_Not_" ("Axiom" ++ j.repr ++ "_" ++ "Not_" ++ a.label) = true := by
      rw [Text.occurs, htext]
      exact Text.occursIn_append (by decide) _ _
    simp [LabelView.namesNegation, Text.begins, hoccurs]

/-- Names without underscores are not confused. -/
lemma namesAgree_demands (helementary : ∀ f ∈ axioms ++ [goal], f.Elementary)
    (hplain : ∀ f ∈ axioms ++ [goal], ∀ y ∈ f.names, '_' ∉ y.toList) :
    (after (demands axioms goal)).NamesAgree (namingsOf (demands axioms goal)) := by
  have hparts : ∀ x ∈ namingsOf (demands axioms goal), x.2.Elementary ∧
      ∃ lead, Text.cut ['_'] 0 [] x.1.toList = x.2.nameParts lead := by
    intro x hx
    obtain ⟨call, hcall, hx⟩ := List.mem_flatMap.1 hx
    obtain ⟨hmem, lead, hlead, hunderscore, -⟩ := exists_of_mem_demands hcall
    rw [hlead] at hx
    obtain ⟨hpart, hcut⟩ := (helementary _ hmem).cut_naming (hplain _ hmem) hunderscore hx
    exact ⟨hpart, _, hcut⟩
  intro x hx y hy hname _ v
  obtain ⟨helem, lead, hcut⟩ := hparts x hx
  obtain ⟨helem', lead', hcut'⟩ := hparts y hy
  rw [helem.nameParts_injective helem' (by rw [← hcut, ← hcut', hname])]

/-- What is encoded beyond the axioms and the goal are symbols and implications among the axioms. -/
lemma elementary_of_mem_calls (helementary : ∀ f ∈ axioms ++ [goal], f.Elementary)
    (hcall : call ∈ calls axioms goal) : call.2.Elementary ∧ (call.2.isVar = false →
      call.2 ∈ axioms ++ [goal] ∧ (call ∈ demands axioms goal ∨ ∀ a, call.2 ≠ .neg a)) := by
  rcases List.mem_append.1 hcall with hcall | hcall
  · have hmem := (exists_of_mem_demands hcall).1
    exact ⟨helementary _ hmem, fun _ => ⟨hmem, Or.inl hcall⟩⟩
  · obtain ⟨f, hf, hcall⟩ := List.mem_flatMap.1 hcall
    cases helementary f (List.mem_append_left _ hf) with
    | var | neg => cases hcall
    | impl z w =>
        rw [gateCalls] at hcall
        split_ifs at hcall
        · simp only [List.mem_cons, List.not_mem_nil, or_false] at hcall
          rcases hcall with rfl | rfl | rfl
          · exact ⟨.var z, by simp [Formula.isVar]⟩
          · exact ⟨.impl z w, fun _ => ⟨List.mem_append_left _ hf, Or.inr (by simp)⟩⟩
          · exact ⟨.var w, by simp [Formula.isVar]⟩
        · cases hcall

lemma holds_of_binds {f : Formula} {t : Tie} {cs : List (String × Formula)} {names : List String}
    (hf : f.Elementary) (hbinds : Binds (namingsOf cs) names f t)
    (heval : bits t.name = f.eval bits) : t.Holds bits := by
  have hsymbol : ∀ {n z : String}, (n, .var z) ∈ namingsOf cs → n = z := by
    intro n z h
    obtain ⟨call, -, h⟩ := List.mem_flatMap.1 h
    exact Formula.eq_of_var_mem_namings h
  rw [Tie.holds_iff, heval]
  cases hbinds with
  | neg ha hin =>
      cases hf with
      | neg z => rw [Tie.truth, hsymbol ha, Formula.eval, Formula.eval]
  | @join c a b left right name ha hb hleft hright =>
      cases c with
      | impl =>
          cases hf with
          | impl z w =>
              rw [Tie.truth, hsymbol ha, hsymbol hb, Formula.eval_apply, Formula.eval, Formula.eval]
      | conj | disj | iff => cases hf

/-- **Where the axioms and the goal are elementary and their bits are one, the check finds nothing
wrong exactly if the ties of the axioms and the goal hold.** -/
lemma faultless_iff_kept (helementary : ∀ f ∈ axioms ++ [goal], f.Elementary)
    (hplain : ∀ f ∈ axioms ++ [goal], ∀ y ∈ f.names, '_' ∉ y.toList)
    (hones : ∀ call ∈ demands axioms goal, bits (call.2.bitName call.1) = true) :
    (∀ x ∈ (next none axioms goal).encoder.formulas.entries,
      ¬ LabelView.ArrowFault bits x.1 x.2 ∧ ¬ LabelView.NegationFault bits x.1 x.2) ↔
      (after (demands axioms goal)).Kept bits := by
  have hfree : ∀ call ∈ calls axioms goal, call.2.IffFree :=
    fun call hcall => (elementary_of_mem_calls helementary hcall).1.iffFree
  have hdemands : ∀ call ∈ demands axioms goal, call.2.IffFree :=
    fun call hcall => hfree call (List.mem_append_left _ hcall)
  obtain ⟨hsound, -, hfound⟩ := sound_empty.encodeAll hdemands (List.Subset.refl _)
  have hgrows : (after (demands axioms goal)).formulas.entries ⊆
      (next none axioms goal).encoder.formulas.entries := by
    rw [next_encoder]
    exact entries_after_subset hfree
  constructor
  · -- a tie is one of an axiom or of the goal, since the parts of these are symbols
    intro hfaultless t ht
    obtain ⟨f, hf, hbinds⟩ := hsound.bound t ht
    obtain ⟨call, hcall, hnaming⟩ := List.mem_flatMap.1 (hsound.named hf)
    have hmem := (exists_of_mem_demands hcall).1
    rcases (helementary _ hmem).mem_namings hnaming with ⟨z, hz, hvar⟩ | hself
    · cases (Prod.mk.inj hvar).2
      cases hbinds.isVar_eq_false
    · obtain ⟨hname, rfl⟩ := Prod.mk.inj hself
      have hone : bits t.name = true := by rw [hname, hones call hcall]
      obtain ⟨harrow, hneg⟩ := hfaultless _ (hgrows hf)
      refine holds_of_binds (helementary _ hmem) hbinds (hone.trans (Eq.symm ?_))
      exact (helementary _ hmem).eval_of_faultless hbinds.isVar_eq_false hone (fun z hz => by
        rw [hname, namesNegation_of_mem_demands hcall hz]) harrow hneg
  · -- a compound formula in the table is an axiom or the goal, whichever name it has
    intro hkept x hx
    have hright := hsound.right_of_namesAgree (namesAgree_demands helementary hplain) hkept
    rw [next_encoder] at hx
    obtain ⟨call, hcall, hnaming⟩ := List.mem_flatMap.1 ((sound_after hfree).named hx)
    obtain ⟨helem, hdemanded⟩ := elementary_of_mem_calls helementary hcall
    rcases helem.mem_namings hnaming with ⟨z, hz, rfl⟩ | rfl
    · exact Formula.Elementary.faultless (.var z) (by simp [Formula.isVar]) (by simp)
    · refine helem.faultless (fun hvar => ?_) fun z hneg => ?_
      · obtain ⟨call', hcall', heq⟩ := exists_demand (hdemanded hvar).1
        have hshown := hright _ (List.mem_flatMap.2 ⟨call', hcall', Formula.self_mem_namings⟩)
          (hfound call' hcall')
        rw [← heq, ← hshown, hones call' hcall']
      · have hcall' := (hdemanded (by rw [hneg]; rfl)).2.resolve_right fun hno => hno _ hneg
        exact hones call hcall'

/-- **What the check on printed formulas accepts.**  For every problem over formulas that can be
read and every sample of zeros and ones over its bits, the check accepts if and only if the bits of
the axioms and the goal are one and no formula in the table is taken for broken, in the sense of
`LabelView.ArrowFault` and `LabelView.NegationFault`.

For a first problem whose axioms and goal are symbols, negations of symbols and implications between
symbols, with no underscore in a symbol, this is as it should be: the check accepts if and only if
those bits are one and all ties of the axioms and the goal cost nothing. -/
theorem check_iff_faultless (K : Type) [Field K] [LinearOrder K] [IsStrictOrderedRing K]
    (p : LabelProblem) (s : Sample) (hp : p.Built) (hbinary : s.Binary) (hs : s.keys ⊆ p.bitNames) :
    ((LabelView.check p.axiomBits p.goalBit p.formulaTexts s).1 = true ↔
      (∀ n ∈ p.axiomBits ++ [p.goalBit], s.value n = 1) ∧
      ∀ x ∈ p.encoder.formulas.entries, ¬ LabelView.ArrowFault s.point x.1 x.2 ∧
        ¬ LabelView.NegationFault s.point x.1 x.2) ∧
    ∀ axioms goal, p = next none axioms goal → (∀ f ∈ axioms ++ [goal], f.Elementary) →
      (∀ f ∈ axioms ++ [goal], ∀ y ∈ f.names, '_' ∉ y.toList) →
      ((LabelView.check p.axiomBits p.goalBit p.formulaTexts s).1 = true ↔
        (∀ n ∈ p.axiomBits ++ [p.goalBit], s.value n = 1) ∧
        ∀ t ∈ p.ties, (t.squareEnergy : Energy K).valueAt s = 0) := by
  simp only [← Sample.point_iff]
  refine ⟨hp.check_iff hbinary hs, ?_⟩
  rintro axioms goal rfl helementary hplain
  rw [hp.check_iff hbinary hs]
  refine and_congr_right fun hones => ?_
  rw [next_bits, List.forall_mem_map] at hones
  rw [faultless_iff_kept helementary hplain hones, next_ties]
  refine forall₂_congr fun t _ => ?_
  rw [Energy.valueAt_eq_cost hbinary, Tie.cost_squareEnergy_eq_zero_iff]

/-- Modus tollens at the point where both symbols are false. -/
theorem check_iff_faultless_tollens :
    let p := next none [.impl (.var "P") (.var "Q"), .neg (.var "Q")] (.neg (.var "P"))
    let s : Sample :=
      ⟨[("Axiom0_Imp_P_Q", 1), ("P", 0), ("Q", 0), ("Axiom1_Not_Q", 1), ("Goal_Not_P", 1)]⟩
    p.Built ∧ s.Binary ∧ s.keys ⊆ p.bitNames ∧
      (LabelView.check p.axiomBits p.goalBit p.formulaTexts s).1 = true ∧
      ∀ t ∈ p.ties, (t.squareEnergy : Energy ℚ).valueAt s = 0 := by
  intro p s
  have hp : p.Built := by
    refine .first ?_ (Formula.legible_of_toOption (t := "~P") (by decide +kernel))
    simp only [List.forall_mem_cons]
    exact ⟨Formula.legible_of_toOption (t := "P -> Q") (by decide +kernel),
      Formula.legible_of_toOption (t := "~Q") (by decide +kernel), List.forall_mem_nil _⟩
  have hbinary : s.Binary := by decide
  have hs : s.keys ⊆ p.bitNames := by decide +kernel
  have hcheck : (LabelView.check p.axiomBits p.goalBit p.formulaTexts s).1 = true := by
    decide +kernel
  refine ⟨hp, hbinary, hs, hcheck, ?_⟩
  refine (((check_iff_faultless ℚ p s hp hbinary hs).2 _ _ rfl ?_ ?_).1 hcheck).2
  · simp only [List.cons_append, List.nil_append, List.forall_mem_cons]
    exact ⟨.impl _ _, .neg _, .neg _, List.forall_mem_nil _⟩
  · decide +kernel

/-- The check is wrong both ways.  It accepts that `P & Q` holds where `Q` does not, and with `P`
and `P -> ~Q` for axioms it refuses a sample in which all ties hold. -/
theorem check_wrong_both_ways :
    (∃ (p : LabelProblem) (s : Sample), p.Built ∧ s.Binary ∧ s.keys ⊆ p.bitNames ∧
      (LabelView.check p.axiomBits p.goalBit p.formulaTexts s).1 = true ∧
      ∃ t ∈ p.ties, (t.squareEnergy : Energy ℚ).valueAt s ≠ 0) ∧
    ∃ (p : LabelProblem) (s : Sample), p.Built ∧ s.Binary ∧ s.keys ⊆ p.bitNames ∧
      (∀ n ∈ p.axiomBits ++ [p.goalBit], s.value n = 1) ∧
      (∀ t ∈ p.ties, (t.squareEnergy : Energy ℚ).valueAt s = 0) ∧
      (LabelView.check p.axiomBits p.goalBit p.formulaTexts s).1 = false := by
  constructor
  · let s : Sample := ⟨[("Axiom0_And_P_Q", 1), ("P", 1), ("Q", 0)]⟩
    have hbinary : s.Binary := by decide
    refine ⟨next none [.conj (.var "P") (.var "Q")] (.var "P"), s, .first ?_ ?_, hbinary,
      by decide +kernel, by decide +kernel, .join .conj "P" "Q" "Axiom0_And_P_Q",
      by decide +kernel, ?_⟩
    · exact List.forall_mem_singleton.2
        (Formula.legible_of_toOption (t := "P & Q") (by decide +kernel))
    · exact Formula.legible_of_toOption (t := "P") (by decide +kernel)
    · rw [Energy.valueAt_eq_cost hbinary, Ne, Tie.cost_squareEnergy_eq_zero_iff, Tie.holds_iff]
      decide
  · let s : Sample := ⟨[("P", 1), ("Axiom1_Imp_P_NQ", 1), ("Axiom1_Not_Q", 1), ("Q", 0),
      ("Goal_Not_Q", 1), ("Imp_P_NQ", 1), ("Not_Q", 1), ("Rule_MP_P_Not_Q", 1)]⟩
    have hbinary : s.Binary := by decide
    refine ⟨next none [.var "P", .impl (.var "P") (.neg (.var "Q"))] (.neg (.var "Q")), s,
      .first ?_ ?_, hbinary, by decide +kernel, by decide +kernel, fun t ht => ?_,
      by decide +kernel⟩
    · simp only [List.forall_mem_cons]
      exact ⟨Formula.legible_of_toOption (t := "P") (by decide +kernel),
        Formula.legible_of_toOption (t := "P -> ~Q") (by decide +kernel), List.forall_mem_nil _⟩
    · exact Formula.legible_of_toOption (t := "~Q") (by decide +kernel)
    · rw [Energy.valueAt_eq_cost hbinary, Tie.cost_squareEnergy_eq_zero_iff, Tie.holds_iff]
      revert t
      decide +kernel

end LabelProblem

end AnnealProver
