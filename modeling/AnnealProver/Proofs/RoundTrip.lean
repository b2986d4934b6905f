import AnnealProver.Formula.Printer
import AnnealProver.Proofs.Grammar
import AnnealProver.Proofs.Meaning

/-!
# Reading back what was printed

Sparse notation leaves out parentheses by a rule of its own at each connective: disjunction leaves
conjunctions bare, the other connectives leave only variables and negations bare, and negation only
variables.  Every such rule has to fit the levels of the grammar.  What makes them fit is that each
formula is printed as a phrase of its own **level** (`phrase_text`), and that an operand is left
bare only where its level is among those that its place allows (`level_suffix_tighter`).

Lists of formulas are printed with semicolons between them.  A printed formula holds no semicolon
and neither begins nor ends with a blank (`whole_text`), so cutting and trimming give it back as it
was printed.
-/

namespace AnnealProver

/-! ### Names -/

/-- Whether the text is a name of the full notation. -/
def Text.isIdentifier (text : String) : Bool :=
  match text.toList with
  | [] => false
  | c :: cs => opensName c && cs.all continuesName

/-- All names of the formula can be written. -/
def Formula.Writable (f : Formula) : Prop :=
  ∀ x ∈ f.names, Text.isIdentifier x = true

instance (f : Formula) : Decidable f.Writable :=
  inferInstanceAs (Decidable (∀ x ∈ f.names, Text.isIdentifier x = true))

lemma Text.exists_of_isIdentifier {text : String} (h : isIdentifier text = true) :
    ∃ c cs, text.toList = c :: cs ∧ opensName c = true ∧ ∀ d ∈ cs, continuesName d = true := by
  rw [isIdentifier] at h
  split at h
  · cases h
  · next c cs htext =>
      rw [Bool.and_eq_true, List.all_eq_true] at h
      exact ⟨c, cs, htext, h.1, h.2⟩

/-! ### Phrases -/

namespace Grammar

variable {g : Grammar} {levels tighter : List Connective} {cs ds : List Char} {f h : Formula}

lemma Written.blanks_append {ts : List Token} (hds : ∀ d ∈ ds, g.isBlank d = true)
    (hcs : g.Written ts cs) : g.Written ts (ds ++ cs) := by
  cases hcs with
  | blanks hcs => exact .blanks (by simpa [or_imp, forall_and] using ⟨hds, hcs⟩)
  | token hblanks hword hrest =>
      rw [← List.append_assoc]
      exact .token (by simpa [or_imp, forall_and] using ⟨hds, hblanks⟩) hword hrest

lemma Written.append {ts us : List Token} (hts : g.Written ts cs) (hus : g.Written us ds) :
    g.Written (ts ++ us) (cs ++ ds) := by
  induction hts with
  | blanks hcs => exact hus.blanks_append hcs
  | token hblanks hword _ ih =>
      rw [List.append_assoc, List.append_assoc]
      exact .token hblanks hword ih

lemma Written.of_spells {t : Token} (ht : g.Spells t cs) : g.Written [t] cs := by
  have hwritten : g.Written [t] ([] ++ (cs ++ [])) := .token (by simp) ht (.blanks (by simp))
  simpa using hwritten

lemma Phrase.mono {levels' : List Connective} (hf : g.Phrase levels cs f)
    (hlevels : levels <:+ levels') : g.Phrase levels' cs f := by
  obtain ⟨looser, rfl⟩ := hlevels
  obtain ⟨ts, hts, hderives⟩ := hf
  refine ⟨ts, hts, ?_⟩
  induction looser with
  | nil => exact hderives
  | cons c looser ih => exact ih.operand

lemma Phrase.tilde (hf : g.Phrase [] cs f) : g.Phrase [] ('~' :: cs) (.neg f) := by
  obtain ⟨ts, hts, hderives⟩ := hf
  exact ⟨.tilde :: ts, (Written.of_spells .tilde).append hts, hderives.tilde⟩

lemma Phrase.parens (hf : g.Phrase g.levels cs f) : g.Phrase [] ('(' :: (cs ++ [')'])) f := by
  obtain ⟨ts, hts, hderives⟩ := hf
  refine ⟨.opening :: (ts ++ [.closing]), ?_, hderives.parens⟩
  exact (Written.of_spells .opening).append (hts.append (.of_spells .closing))

/-- A connective with the same blanks on either side joins two phrases. -/
lemma Phrase.join {c : Connective} (blanks : List Char) (hblanks : ∀ d ∈ blanks, g.isBlank d = true)
    (hf : g.Phrase (c :: tighter) cs f) (hh : g.Phrase tighter ds h) :
    g.Phrase (c :: tighter) (cs ++ (blanks ++ (c.symbol.toList ++ (blanks ++ ds))))
      (c.apply f h) := by
  obtain ⟨ts, hts, hf⟩ := hf
  obtain ⟨us, hus, hh⟩ := hh
  refine ⟨ts ++ .op c :: us, hts.append ?_, hf.chain hh⟩
  have hoperand := (Written.of_spells (.op c)).append (hus.blanks_append hblanks)
  exact hoperand.blanks_append hblanks

lemma phrase_name {x : String} (hx : g.Spells (.name x.toList) x.toList) :
    g.Phrase [] x.toList (.var x) := by
  have hderives : g.Derives [] [.name x.toList] (.var (String.ofList x.toList)) := .name
  rw [String.ofList_toList] at hderives
  exact ⟨_, .of_spells hx, hderives⟩

lemma spells_identifier {x : String} (hx : Text.isIdentifier x = true) :
    full.Spells (.name x.toList) x.toList := by
  obtain ⟨c, cs, htext, hc, hcs⟩ := Text.exists_of_isIdentifier hx
  rw [htext]
  exact .name hc hcs

end Grammar

open Grammar

/-! ### Levels of printed formulas -/

/-- The levels of the full notation below the connective's own. -/
def Connective.tighter : Connective → List Connective
  | iff => [.impl, .disj, .conj]
  | impl => [.disj, .conj]
  | disj => [.conj]
  | conj => []

/-- Whether the operand stands bare beside the connective. -/
def Connective.leavesBare : Connective → Formula → Bool
  | disj, f => f.isTightInDisj
  | _, f => f.isTight

namespace Formula

/-- The levels that the formula needs when it stands bare. -/
def level : Formula → List Connective
  | var _ | neg _ => []
  | conj _ _ => .conj :: Connective.conj.tighter
  | disj _ _ => .disj :: Connective.disj.tighter
  | impl _ _ => .impl :: Connective.impl.tighter
  | iff _ _ => .iff :: Connective.iff.tighter

@[simp] lemma level_apply (c : Connective) (a b : Formula) :
    (c.apply a b).level = c :: c.tighter := by
  cases c <;> rfl

lemma level_suffix_levels (f : Formula) : f.level <:+ Grammar.full.levels := by
  cases f <;> simp only [level, Connective.tighter, Grammar.full] <;> decide

/-- An operand that is left bare needs no more levels than its place has. -/
lemma level_suffix_tighter {c : Connective} {f : Formula} (h : c.leavesBare f = true) :
    f.level <:+ c.tighter := by
  cases c <;> cases f <;>
    simp_all [Connective.leavesBare, isTight, isTightInDisj, level, Connective.tighter]

lemma toList_text_neg (a : Formula) :
    (neg a).text.toList = '~' :: (wrap a.isVar a.text).toList := by
  rw [text, String.toList_append]
  rfl

lemma toList_text_apply (c : Connective) (a b : Formula) :
    (c.apply a b).text.toList = (wrap (c.leavesBare a) a.text).toList ++
      ' ' :: (c.symbol.toList ++ ' ' :: (wrap (c.leavesBare b) b.text).toList) := by
  cases c <;> simp [Connective.apply, text, Connective.leavesBare, Connective.symbol]

lemma toList_wrap_false (text : String) :
    (wrap false text).toList = '(' :: (text.toList ++ [')']) := by
  simp [wrap]

lemma phrase_wrap {f : Formula} {levels : List Connective} {bare : Bool}
    (hf : Grammar.full.Phrase f.level f.text.toList f) (hbare : bare = true → f.level <:+ levels) :
    Grammar.full.Phrase levels (wrap bare f.text).toList f := by
  cases bare with
  | true => exact hf.mono (hbare rfl)
  | false =>
      rw [toList_wrap_false]
      exact (hf.mono f.level_suffix_levels).parens.mono (List.nil_suffix)

/-- **A formula is printed as a phrase of its level.** -/
lemma phrase_text {f : Formula} (hf : f.Writable) :
    Grammar.full.Phrase f.level f.text.toList f := by
  induction f using connectiveInduction with
  | var x => exact phrase_name (spells_identifier (hf x (by simp [names])))
  | neg a ih =>
      have hoperand : Grammar.full.Phrase [] (wrap a.isVar a.text).toList a := by
        refine phrase_wrap (ih hf) fun hvar => ?_
        cases a <;> simp_all [isVar, level]
      rw [toList_text_neg]
      exact hoperand.tilde
  | join c a b iha ihb =>
      rw [Writable, names_apply, List.forall_mem_append] at hf
      have hleft : Grammar.full.Phrase (c :: c.tighter) (wrap (c.leavesBare a) a.text).toList a :=
        phrase_wrap (iha hf.1) fun hbare =>
          (level_suffix_tighter hbare).trans (List.suffix_cons _ _)
      have hright : Grammar.full.Phrase c.tighter (wrap (c.leavesBare b) b.text).toList b :=
        phrase_wrap (ihb hf.2) level_suffix_tighter
      rw [toList_text_apply, level_apply]
      exact hleft.join [' '] (List.forall_mem_singleton.2 (by decide)) hright

lemma parse_text {f : Formula} (hf : f.Writable) : parse .full f.text = .ok f :=
  parse_full_eq_ok_iff.mpr ((phrase_text hf).mono f.level_suffix_levels)

end Formula

/-! ### Lists -/

namespace Text

/-- The characters come out of a list whole: the separator is not among them, and they neither
begin nor end with a blank. -/
structure Whole (separator : Char) (cs : List Char) : Prop where
  undivided : separator ∉ cs
  first : ∃ c, cs.head? = some c ∧ isBlank c = false
  last : ∃ c, cs.getLast? = some c ∧ isBlank c = false

variable {separator : Char} {cs ds between : List Char}

lemma Whole.singleton {c : Char} (hc : separator ≠ c) (hblank : isBlank c = false) :
    Whole separator [c] :=
  ⟨List.mem_singleton.not.mpr hc, ⟨c, rfl, hblank⟩, ⟨c, rfl, hblank⟩⟩

lemma Whole.append (hcs : Whole separator cs) (hbetween : separator ∉ between)
    (hds : Whole separator ds) : Whole separator (cs ++ (between ++ ds)) where
  undivided := by simp [hcs.undivided, hbetween, hds.undivided]
  first := by
    obtain ⟨c, hc, hblank⟩ := hcs.first
    exact ⟨c, by rw [List.head?_append, hc, Option.some_or], hblank⟩
  last := by
    obtain ⟨c, hc, hblank⟩ := hds.last
    exact ⟨c, by rw [List.getLast?_append, List.getLast?_append, hc, Option.some_or,
      Option.some_or], hblank⟩

lemma trimStart_eq (h : ∃ c, cs.head? = some c ∧ isBlank c = false) : trimStart cs = cs := by
  obtain ⟨c, hc, hblank⟩ := h
  obtain ⟨rest, rfl⟩ := List.head?_eq_some_iff.mp hc
  rw [trimStart, List.dropWhile_cons, hblank]
  rfl

lemma Whole.trim_eq {text : String} (h : Whole separator text.toList) : trim text = text := by
  have hlast : trimStart text.toList.reverse = text.toList.reverse :=
    trimStart_eq (by simpa using h.last)
  rw [trim, trimStart_eq h.first, trimEnd, hlast, List.reverse_reverse, String.ofList_toList]

lemma Whole.not_blank {text : String} (h : Whole separator text.toList) : blank text = false := by
  obtain ⟨c, hc, hblank⟩ := h.first
  rw [blank, List.all_eq_false]
  exact ⟨c, List.mem_of_mem_head? hc, by rw [hblank]; decide⟩

lemma cut_skip (between skipped piece : List Char) :
    cut between skipped.length piece (skipped ++ cs) = cut between 0 piece cs := by
  induction skipped with
  | nil => rfl
  | cons c skipped ih => exact ih

lemma cut_last {more : List Char} (h : separator ∉ cs) (piece : List Char) :
    cut (separator :: more) 0 piece cs = [piece.reverse ++ cs] := by
  induction cs generalizing piece with
  | nil => rw [cut, List.append_nil]
  | cons c cs ih =>
      rw [List.mem_cons, not_or] at h
      rw [cut, if_neg (by simp [h.1]), ih h.2]
      simp

lemma cut_append {more : List Char} (h : separator ∉ cs) (piece : List Char) :
    cut (separator :: more) 0 piece (cs ++ separator :: (more ++ ds)) =
      (piece.reverse ++ cs) :: cut (separator :: more) 0 [] ds := by
  induction cs generalizing piece with
  | nil =>
      rw [List.nil_append, cut, if_pos (by simp), List.append_nil, ← cut_skip _ more]
      rfl
  | cons c cs ih =>
      rw [List.mem_cons, not_or] at h
      rw [List.cons_append, cut, if_neg (by simp [h.1]), ih h.2]
      simp

/-- Cutting undoes joining, as long as the separator occurs in none of the parts. -/
lemma cut_intercalate {parts : List (List Char)} (hparts : parts ≠ [])
    (h : ∀ cs ∈ parts, separator ∉ cs) :
    cut [separator] 0 [] ([separator].intercalate parts) = parts := by
  induction parts with
  | nil => exact absurd rfl hparts
  | cons cs rest ih =>
      rw [List.forall_mem_cons] at h
      cases rest with
      | nil => simp [cut_last h.1]
      | cons ds rest =>
          rw [List.intercalate_cons_cons, List.append_assoc, List.singleton_append,
            ← List.nil_append (List.intercalate _ _), cut_append h.1, ih (by simp) h.2]
          simp

lemma fields_intercalate {divider : String} (hdivider : divider.toList = [separator])
    {texts : List String} (h : ∀ text ∈ texts, Whole separator text.toList) :
    fields divider (divider.intercalate texts) = texts := by
  by_cases htexts : texts = []
  · subst htexts
    rfl
  · have hcut : split divider (divider.intercalate texts) = texts := by
      rw [split, String.toList_intercalate, hdivider, cut_intercalate (by simpa using htexts)]
      · simp
      · simpa using fun text ht => (h text ht).undivided
    have hkept : texts.filter (fun text => !blank text) = texts := by
      rw [List.filter_eq_self]
      intro text ht
      rw [(h text ht).not_blank]
      rfl
    have htrim : texts.map trim = texts.map id :=
      List.map_congr_left fun text ht => (h text ht).trim_eq
    rw [fields, hcut, hkept, htrim, List.map_id]

lemma whole_of_isIdentifier {x : String} (hx : isIdentifier x = true) : Whole ';' x.toList := by
  obtain ⟨c, cs, htext, hc, hcs⟩ := exists_of_isIdentifier hx
  have hall : ∀ d ∈ c :: cs, continuesName d = true :=
    List.forall_mem_cons.mpr ⟨continuesName_of_opensName hc, hcs⟩
  rw [htext]
  refine ⟨fun hsemicolon => ?_, ⟨c, rfl, ?_⟩, ⟨_, List.getLast?_eq_some_getLast (by simp), ?_⟩⟩
  · exact absurd (hall ';' hsemicolon) (by decide)
  · exact isBlank_of_continuesName (hall c List.mem_cons_self)
  · exact isBlank_of_continuesName (hall _ (List.getLast_mem _))

end Text

namespace Formula

lemma whole_wrap (bare : Bool) {text : String} (h : Text.Whole ';' text.toList) :
    Text.Whole ';' (wrap bare text).toList := by
  cases bare with
  | true => exact h
  | false =>
      rw [toList_wrap_false]
      have hopening : Text.Whole ';' ['('] := .singleton (by decide) (by decide)
      have hclosing : Text.Whole ';' [')'] := .singleton (by decide) (by decide)
      exact hopening.append h.undivided hclosing

/-- A printed formula comes out whole of a list with semicolons. -/
lemma whole_text {f : Formula} (hf : f.Writable) : Text.Whole ';' f.text.toList := by
  induction f using connectiveInduction with
  | var x => exact Text.whole_of_isIdentifier (hf x (by simp [names]))
  | neg a ih =>
      have htilde : Text.Whole ';' ['~'] := .singleton (by decide) (by decide)
      rw [toList_text_neg]
      exact htilde.append List.not_mem_nil (whole_wrap _ (ih hf))
  | join c a b iha ihb =>
      rw [Writable, names_apply, List.forall_mem_append] at hf
      have hsymbol : ';' ∉ ' ' :: (c.symbol.toList ++ [' ']) := by cases c <;> decide
      have hwhole := (whole_wrap (c.leavesBare a) (iha hf.1)).append hsymbol
        (whole_wrap (c.leavesBare b) (ihb hf.2))
      rw [toList_text_apply]
      simpa using hwhole

lemma parseAll_text {fs : List Formula} (hfs : ∀ f ∈ fs, f.Writable) :
    parseAll .full (fs.map text) = .ok fs := by
  induction fs with
  | nil => rfl
  | cons f fs ih =>
      rw [List.forall_mem_cons] at hfs
      have hrest := ih hfs.2
      rw [parseAll] at hrest ⊢
      rw [List.map_cons, List.mapM_cons, parse_text hfs.1, hrest]
      rfl

end Formula

/-- **Printing and reading are inverse.**  A formula whose names can be written is read back from
its sparse notation as it was, and so is a list of such formulas from their notations with
semicolons between them. -/
theorem parse_inverts_text :
    (∀ f : Formula, f.Writable → Formula.parse .full f.text = .ok f) ∧
    ∀ fs : List Formula, (∀ f ∈ fs, f.Writable) →
      Formula.parseList ";" (String.intercalate ";" (fs.map Formula.text)) = .ok fs := by
  refine ⟨fun f hf => Formula.parse_text hf, fun fs hfs => ?_⟩
  have hdivider : ";".toList = [';'] := by decide
  have hfields : Text.fields ";" (String.intercalate ";" (fs.map Formula.text)) =
      fs.map Formula.text := by
    refine Text.fields_intercalate hdivider ?_
    simpa using fun f hf => Formula.whole_text (hfs f hf)
  rw [Formula.parseList, if_neg (by decide), hfields, Formula.parseAll_text hfs]
  rfl

/-- A conjunction bare in a disjunction, negations bare and in parentheses, and implications in
parentheses on both sides. -/
theorem parse_inverts_text_nested :
    let f : Formula :=
      .impl (.impl (.var "P") (.disj (.conj (.var "P") (.var "Q_1")) (.neg (.neg (.var "_r")))))
        (.impl (.neg (.conj (.var "é2") (.var "P"))) (.var "Q_1"))
    f.text = "(P -> (P & Q_1 | ~(~_r))) -> (~(é2 & P) -> Q_1)" ∧ f.Writable ∧
      Formula.parse .full f.text = .ok f ∧
      Formula.parseList ";" (String.intercalate ";" ([f, .neg f].map Formula.text)) =
        .ok [f, .neg f] := by
  intro f
  have hf : f.Writable := by decide +kernel
  have hfs : ∀ h ∈ [f, .neg f], h.Writable := by decide +kernel
  exact ⟨by decide +kernel, hf, parse_inverts_text.1 f hf, parse_inverts_text.2 _ hfs⟩

end AnnealProver
