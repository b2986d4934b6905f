import AnnealProver.Proofs.Grammar
import AnnealProver.Proofs.Meaning

/-!
# The ways of writing agree

The two compact dialects read by one grammar and differ in the wording of their complaints.  The
full one looks different: it keeps blanks and passes over them between tokens, and it opens a name
with fewer characters.  Still, a text that it reads is read as the same formula by the compact ones,
if it has no equivalence in it and its only blanks are spaces (`dialects_agree`).

Nothing has to be said about readers for that, since both accept what their grammar **writes** and
**derives**.  The question is whether throwing the spaces away changes what is written.  It does not
change the row of tokens that the full grammar has in mind (`Written.dropSpaces`).  It might make
other rows possible, as it does where a space divides two names, but the reader finds the one that
derives a formula.
-/

namespace AnnealProver

namespace Grammar

variable {g : Grammar} {t : Token} {ts : List Token} {word cs : List Char} {f : Formula}
  {levels : List Connective}

lemma compact_distinct : compact.Distinct where
  levels := by decide
  opens_sign := continues_sign
  blank_sign := fun _ _ => rfl
  blank_opens := fun _ _ => rfl
  continues_blank := fun _ h => by cases h

/-! ### Throwing spaces away -/

lemma Spells.toCompact (h : full.Spells t word) : compact.Spells t word := by
  cases h with
  | op c => exact .op c
  | tilde => exact .tilde
  | opening => exact .opening
  | closing => exact .closing
  | name hc hcs => exact .name (Text.continuesName_of_opensName hc) hcs

/-- No token has a space inside. -/
lemma Spells.filter_eq (h : compact.Spells t word) : word.filter (· != ' ') = word := by
  cases h with
  | op c => cases c <;> decide
  | tilde | opening | closing => decide
  | @name c cs hc hcs =>
      have hcontinues : ∀ d ∈ c :: cs, Text.continuesName d = true :=
        List.forall_mem_cons.2 ⟨hc, hcs⟩
      rw [List.filter_eq_self]
      intro d hd
      rw [bne_iff_ne]
      rintro rfl
      exact absurd (hcontinues ' ' hd) (by decide)

/-- What is written with spaces between the tokens is written without them. -/
lemma Written.dropSpaces (h : full.Written ts cs)
    (hblank : ∀ c ∈ cs, Text.isBlank c = true → c = ' ') :
    compact.Written ts (cs.filter (· != ' ')) := by
  have hnone : ∀ blanks : List Char, (∀ c ∈ blanks, c = ' ') → blanks.filter (· != ' ') = [] := by
    intro blanks hblanks
    simpa using hblanks
  induction h with
  | blanks hcs =>
      rw [hnone _ fun c hc => hblank c hc (hcs c hc)]
      exact .blanks (by simp)
  | @token t ts blanks word cs hblanks hword hcs ih =>
      simp only [List.mem_append] at hblank
      rw [List.filter_append, List.filter_append, hword.toCompact.filter_eq,
        hnone _ fun c hc => hblank c (Or.inl hc) (hblanks c hc)]
      exact .token (by simp) hword.toCompact (ih fun c hc => hblank c (Or.inr (Or.inr hc)))

/-! ### Leaving the equivalence out -/

/-- A token for an equivalence can be seen in the text. -/
lemma Written.iff_infix (h : g.Written ts cs) (hts : .op .iff ∈ ts) : "<->".toList <:+: cs := by
  induction h with
  | blanks => simp at hts
  | @token t ts blanks word cs hblanks hword hcs ih =>
      rcases List.mem_cons.1 hts with rfl | hts
      · cases hword
        exact ⟨blanks, cs, by simp [Connective.symbol]⟩
      · exact ((ih hts).trans (List.suffix_append word cs).isInfix).trans
          (List.suffix_append blanks _).isInfix

/-- Without the token for an equivalence its level is only passed through. -/
lemma Derives.toCompact (h : full.Derives levels ts f) (hts : .op .iff ∉ ts) :
    compact.Derives (levels.filter (· != .iff)) ts f := by
  induction h with
  | @operand c tighter ts f hf ih =>
      by_cases hc : c = .iff
      · rw [List.filter_cons_of_neg (by simp [hc])]
        exact ih hts
      · rw [List.filter_cons_of_pos (by simp [hc])]
        exact .operand (ih hts)
  | @chain c tighter ts us f h hf hh ihf ihh =>
      simp only [List.mem_append, List.mem_cons, Token.op.injEq, not_or] at hts
      have hc : c ≠ .iff := fun heq => hts.2.1 heq.symm
      rw [List.filter_cons_of_pos (by simp [hc])] at ihf ⊢
      exact .chain (ihf hts.1) (ihh hts.2.2)
  | tilde hf ih => exact .tilde (ih (by simpa using hts))
  | parens hf ih => exact .parens (ih (by simpa using hts))
  | name => exact .name

/-- A grammar without equivalence derives formulas without equivalences. -/
lemma Derives.no_iff (hg : .iff ∉ g.levels) (h : g.Derives levels ts f) (hlevels : .iff ∉ levels) :
    ∀ a b, Formula.iff a b ∉ f.subformulas := by
  intro a b
  induction h with
  | operand hf ih => exact ih fun h => hlevels (List.mem_cons_of_mem _ h)
  | @chain c tighter ts us f h hf hh ihf ihh =>
      rw [Formula.subformulas_apply, List.mem_cons, List.mem_append, not_or, not_or]
      refine ⟨?_, ihf hlevels, ihh fun h => hlevels (List.mem_cons_of_mem _ h)⟩
      cases c <;> simp_all [Connective.apply]
  | tilde hf ih => simpa [Formula.subformulas] using ih hlevels
  | parens hf ih => exact ih hg
  | name => simp [Formula.subformulas]

end Grammar

open Grammar

lemma Formula.parse_located_eq_ok_iff {text : String} {f : Formula} :
    Formula.parse .located text = .ok f ↔
      Grammar.compact.Phrase Grammar.compact.levels (text.toList.filter (· != ' ')) f := by
  rw [← compact_distinct.read_eq_ok_iff, Formula.parse, Dialect.read, Dialect.seen]
  cases Grammar.compact.read (text.toList.filter (· != ' ')) <;> simp [Except.mapError]

/-- **The dialects agree.**  The two compact ones read every text as the same formula, or refuse it
for the same cause; they read what their grammar writes without spaces.  What the full one reads, if
no equivalence is written in it and spaces are its only blanks, has no equivalence inside and is
read as the same formula by the compact ones. -/
theorem dialects_agree (text : String) :
    ((∃ f, Formula.parse .plain text = .ok f ∧ Formula.parse .located text = .ok f ∧
        Grammar.compact.Phrase [.impl, .disj, .conj] (text.toList.filter (· != ' ')) f) ∨
      ∃ cause, Formula.parse .plain text = .error ⟨.plain, text, cause⟩ ∧
        Formula.parse .located text = .error ⟨.located, text, cause⟩ ∧
        ∀ f, ¬ Grammar.compact.Phrase [.impl, .disj, .conj] (text.toList.filter (· != ' ')) f) ∧
    (¬ "<->".toList <:+: text.toList → (∀ c ∈ text.toList, Text.isBlank c = true → c = ' ') →
      ∀ f, Formula.parse .full text = .ok f →
        (∀ a b, Formula.iff a b ∉ f.subformulas) ∧ Formula.parse .located text = .ok f) := by
  have hphrase : ∀ f, Grammar.compact.read (text.toList.filter (· != ' ')) = .ok f ↔
      Grammar.compact.Phrase [.impl, .disj, .conj] (text.toList.filter (· != ' ')) f :=
    fun f => compact_distinct.read_eq_ok_iff
  constructor
  · simp only [Formula.parse, Dialect.read, Dialect.seen]
    cases hread : Grammar.compact.read (text.toList.filter (· != ' ')) with
    | ok f => exact Or.inl ⟨f, rfl, rfl, (hphrase f).1 hread⟩
    | error cause =>
        refine Or.inr ⟨cause, rfl, rfl, fun f hf => ?_⟩
        rw [(hphrase f).2 hf] at hread
        cases hread
  · intro hiff hblank f hf
    obtain ⟨ts, hwritten, hderives⟩ := Formula.parse_full_eq_ok_iff.1 hf
    have hcompact := hderives.toCompact fun hts => hiff (hwritten.iff_infix hts)
    exact ⟨hcompact.no_iff (by decide) (by decide),
      Formula.parse_located_eq_ok_iff.2 ⟨ts, hwritten.dropSpaces hblank, hcompact⟩⟩

/-- Spaces around and between the tokens, none of them inside a name. -/
theorem dialects_agree_spaced :
    let text := " ~ ( P1->_q)| P1 & R "
    let f : Formula :=
      .disj (.neg (.impl (.var "P1") (.var "_q"))) (.conj (.var "P1") (.var "R"))
    ¬ "<->".toList <:+: text.toList ∧ (∀ c ∈ text.toList, Text.isBlank c = true → c = ' ') ∧
      Formula.parse .full text = .ok f ∧ Formula.parse .located text = .ok f := by
  intro text f
  have hiff : ¬ "<->".toList <:+: text.toList := by decide +kernel
  have hall : text.toList.all (fun c => !Text.isBlank c || c == ' ') = true := by decide +kernel
  have hblank : ∀ c ∈ text.toList, Text.isBlank c = true → c = ' ' := by
    intro c hc hc'
    have := List.all_eq_true.1 hall c hc
    simpa [hc'] using this
  have hsome : (Formula.parse .full text).toOption = some f := by decide +kernel
  have hfull : Formula.parse .full text = .ok f := by
    cases hread : Formula.parse .full text <;> simp_all [Except.toOption]
  exact ⟨hiff, hblank, hfull, ((dialects_agree text).2 hiff hblank f hfull).2⟩

end AnnealProver
