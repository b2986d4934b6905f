import AnnealProver.Proofs.BracketedText
import AnnealProver.Proofs.Dialects

/-!
# Reading bracketed notation

Bracketed notation puts parentheses around every binary formula and none around a negation.  It is
read back by two dialects that have little in common: the compact one, which throws the spaces away
and opens names with digits, and the full one, which passes over blanks between tokens.

**Reading.**  Both accept what their grammar writes, so it is enough that a bracketed formula is a
phrase of the grammar, with the spaces and without (`Grammar.Covers.phrase`).  A phrase in
parentheses may stand at any place, whatever its connective, so only two things are asked of the
grammar: that it has the names and the connectives of the formula.

**Reading from the front.**  How far a bracketed formula reaches can be seen without looking
further: two texts that begin with one and go on with something that is no part of a name are equal
only if the formulas are (`Formula.bracketed_append_inj`).  Nor can parentheses be put around a
bracketed formula so that another one comes out (`Formula.parens_bracketed_inj`).
-/

namespace AnnealProver

/-! ## Formulas over words -/

instance (text : String) : Decidable (Text.IsWord text) :=
  decidable_of_iff (text.toList ≠ [] ∧ text.toList.all Text.continuesName = true)
    ⟨fun h => ⟨h.1, List.all_eq_true.1 h.2⟩, fun h => ⟨h.ne_nil, List.all_eq_true.2 h.continues⟩⟩

namespace Formula

/-- Whether there is no equivalence in the formula. -/
def isIffFree : Formula → Bool
  | var _ => true
  | neg a => a.isIffFree
  | conj a b | disj a b | impl a b => a.isIffFree && b.isIffFree
  | iff _ _ => false

lemma isIffFree_iff {f : Formula} : f.isIffFree = true ↔ f.IffFree := by
  constructor
  · intro h
    induction f using connectiveInduction with
    | var x => exact .var x
    | neg a ih => exact .neg (ih h)
    | join c a b iha ihb =>
        cases c with
        | iff => cases h
        | conj | disj | impl =>
            obtain ⟨ha, hb⟩ := Bool.and_eq_true_iff.1 h
            exact .join (by decide) (iha ha) (ihb hb)
  · intro h
    induction h with
    | var x => rfl
    | neg ha ih => exact ih
    | @join c a b hc ha hb iha ihb =>
        cases c with
        | iff => contradiction
        | conj | disj | impl => exact Bool.and_eq_true_iff.2 ⟨iha, ihb⟩

instance (f : Formula) : Decidable f.Worded :=
  decidable_of_iff (f.isIffFree = true ∧ ∀ y ∈ f.names, Text.IsWord y)
    ⟨fun h => ⟨isIffFree_iff.1 h.1, h.2⟩, fun h => ⟨isIffFree_iff.2 h.iffFree, h.words⟩⟩

end Formula

/-! ## Reading -/

namespace Grammar

variable {g : Grammar} {keep : Char → Bool} {f : Formula}

/-- The grammar has the names and the connectives of the formula. -/
inductive Covers (g : Grammar) : Formula → Prop
  | var {x : String} (hx : g.Spells (.name x.toList) x.toList) : Covers g (.var x)
  | neg {a : Formula} (ha : Covers g a) : Covers g (.neg a)
  | join {c : Connective} {a b : Formula} (hc : c ∈ g.levels) (ha : Covers g a) (hb : Covers g b) :
      Covers g (c.apply a b)

/-- At most spaces are left out, and those that are not are blanks of the grammar. -/
structure Thins (g : Grammar) (keep : Char → Bool) : Prop where
  other : ∀ c, c ≠ ' ' → keep c = true
  space : keep ' ' = true → g.isBlank ' ' = true

lemma Thins.filter_eq (h : g.Thins keep) {cs : List Char} (hcs : ' ' ∉ cs) :
    cs.filter keep = cs := by
  rw [List.filter_eq_self]
  intro c hc
  exact h.other c (ne_of_mem_of_not_mem hc hcs)

lemma Thins.blank (h : g.Thins keep) : ∀ d ∈ [' '].filter keep, g.isBlank d = true := by
  intro d hd
  obtain ⟨hd, hkeep⟩ := List.mem_filter.1 hd
  rw [List.mem_singleton.1 hd] at hkeep ⊢
  exact h.space hkeep

/-- **Bracketed notation is a phrase of every grammar that covers the formula**, at the tightest
level. -/
lemma Covers.phrase (hf : g.Covers f) (hkeep : g.Thins keep)
    (hwords : ∀ y ∈ f.names, Text.IsWord y) :
    g.Phrase [] (f.bracketed.toList.filter keep) f := by
  induction hf with
  | @var x hx =>
      have hspace : ' ' ∉ x.toList := fun hin =>
        absurd ((hwords x (by simp [Formula.names])).continues _ hin) (by decide)
      rw [Formula.bracketed, hkeep.filter_eq hspace]
      exact phrase_name hx
  | neg ha ih =>
      rw [Formula.toList_bracketed_neg, List.filter_cons_of_pos (hkeep.other _ (by decide))]
      exact (ih hwords).tilde
  | @join c a b hc ha hb iha ihb =>
      rw [Formula.names_apply, List.forall_mem_append] at hwords
      -- in parentheses the connective may be used at its own level, wherever that is
      obtain ⟨looser, tighter, hlevels⟩ := List.append_of_mem hc
      have hleft : g.Phrase (c :: tighter) (a.bracketed.toList.filter keep) a :=
        (iha hwords.1).mono List.nil_suffix
      have hright : g.Phrase tighter (b.bracketed.toList.filter keep) b :=
        (ihb hwords.2).mono List.nil_suffix
      have hjoin := (hleft.join _ hkeep.blank hright).mono ⟨looser, hlevels.symm⟩
      have hsymbol : c.symbol.toList.filter keep = c.symbol.toList :=
        hkeep.filter_eq (by cases c <;> decide)
      have htext : (c.apply a b).bracketed.toList = ['('] ++ ((a.bracketed.toList ++ ([' '] ++
          (c.symbol.toList ++ ([' '] ++ b.bracketed.toList)))) ++ [')']) := by
        simp [Formula.toList_bracketed_apply]
      rw [htext]
      simp only [List.filter_append, hsymbol, hkeep.filter_eq (show ' ' ∉ ['('] by decide),
        hkeep.filter_eq (show ' ' ∉ [')'] by decide)]
      exact hjoin.parens

lemma covers_compact (hf : f.Worded) : compact.Covers f := by
  obtain ⟨hfree, hwords⟩ := hf
  induction hfree with
  | var x =>
      have hx := hwords x (by simp [Formula.names])
      obtain ⟨c, cs, htext⟩ := List.exists_cons_of_ne_nil hx.ne_nil
      have hcontinues : ∀ d ∈ c :: cs, Text.continuesName d = true := htext ▸ hx.continues
      rw [List.forall_mem_cons] at hcontinues
      refine .var ?_
      rw [htext]
      exact .name hcontinues.1 hcontinues.2
  | neg ha ih => exact .neg (ih hwords)
  | @join c a b hc ha hb iha ihb =>
      rw [Formula.names_apply, List.forall_mem_append] at hwords
      exact .join (by cases c <;> first | contradiction | decide) (iha hwords.1) (ihb hwords.2)

lemma covers_full (hf : f.Writable) : full.Covers f := by
  induction f using Formula.connectiveInduction with
  | var x => exact .var (spells_identifier (hf x (by simp [Formula.names])))
  | neg a ih => exact .neg (ih hf)
  | join c a b iha ihb =>
      rw [Formula.Writable, Formula.names_apply, List.forall_mem_append] at hf
      exact .join (by cases c <;> decide) (iha hf.1) (ihb hf.2)

end Grammar

open Grammar

lemma Text.IsWord.of_isIdentifier {x : String} (hx : isIdentifier x = true) : IsWord x := by
  obtain ⟨c, cs, htext, hc, hcs⟩ := exists_of_isIdentifier hx
  refine ⟨by simp [htext], ?_⟩
  rw [Continues, htext]
  exact List.forall_mem_cons.2 ⟨continuesName_of_opensName hc, hcs⟩

/-- **Bracketed notation is read back by both ways of writing.**  A formula without equivalences
whose names are words is read by the located dialect as it was printed, and so is every formula
whose names open with a letter or an underscore, with equivalences or without, by the full
dialect. -/
theorem parse_inverts_bracketed :
    (∀ f : Formula, f.Worded → Formula.parse .located f.bracketed = .ok f) ∧
    ∀ f : Formula, f.Writable → Formula.parse .full f.bracketed = .ok f := by
  constructor
  · intro f hf
    have hkeep : compact.Thins (· != ' ') := ⟨fun c hc => bne_iff_ne.2 hc, fun h => by cases h⟩
    have hphrase := (covers_compact hf).phrase hkeep hf.words
    exact Formula.parse_located_eq_ok_iff.2 (hphrase.mono List.nil_suffix)
  · intro f hf
    have hkeep : full.Thins fun _ => true := ⟨fun _ _ => rfl, fun _ => by decide⟩
    have hphrase := (covers_full hf).phrase hkeep fun y hy => .of_isIdentifier (hf y hy)
    rw [List.filter_true] at hphrase
    exact Formula.parse_full_eq_ok_iff.2 (hphrase.mono List.nil_suffix)

/-- Negations over negations and parentheses, with a name that opens with a digit for the one
dialect, and with an equivalence for the other. -/
theorem parse_inverts_bracketed_nested :
    let f : Formula := .neg (.neg (.impl (.conj (.var "1é_") (.neg (.var "P")))
      (.disj (.var "P") (.neg (.impl (.var "²") (.var "1é_"))))))
    let g : Formula := .iff (.neg (.neg (.var "_p"))) (.impl (.var "é2") (.neg (.conj (.var "_p")
      (.var "Q"))))
    f.bracketed = "~~((1é_ & ~P) -> (P | ~(² -> 1é_)))" ∧ f.Worded ∧
      Formula.parse .located f.bracketed = .ok f ∧
    g.bracketed = "(~~_p <-> (é2 -> ~(_p & Q)))" ∧ g.Writable ∧
      Formula.parse .full g.bracketed = .ok g := by
  intro f g
  have hf : f.Worded := by decide +kernel
  have hg : g.Writable := by decide +kernel
  exact ⟨by decide +kernel, hf, parse_inverts_bracketed.1 f hf, by decide +kernel, hg,
    parse_inverts_bracketed.2 g hg⟩

/-! ## Reading from the front -/

namespace Text

variable {r s : List Char}

/-- Nothing follows, or something that is no part of a name. -/
def Breaks (cs : List Char) : Prop :=
  ∀ c ∈ cs.head?, continuesName c = false

/-- Nothing follows, or a closing parenthesis. -/
def Closes (cs : List Char) : Prop :=
  ∀ c ∈ cs.head?, c = ')'

lemma Closes.breaks (h : Closes r) : Breaks r := by
  intro c hc
  rw [h c hc]
  decide

lemma Breaks.takeWhile_eq {word : String} (hword : IsWord word) (hr : Breaks r) :
    (word.toList ++ r).takeWhile continuesName = word.toList := by
  rw [List.takeWhile_append_of_pos hword.continues]
  cases r with
  | nil => simp
  | cons c r => simp [hr c rfl]

lemma IsWord.append_ne_cons {word : String} (hword : IsWord word) {c : Char}
    (hc : continuesName c = false) : word.toList ++ r ≠ c :: s := by
  intro h
  obtain ⟨d, ds, htext⟩ := List.exists_cons_of_ne_nil hword.ne_nil
  rw [htext, List.cons_append, List.cons.injEq] at h
  have hd := hword.continues d (by simp [htext])
  rw [h.1, hc] at hd
  cases hd

end Text

namespace Formula

open Text (Breaks Closes IsWord)

variable {f g : Formula} {r s : List Char}

lemma symbol_append_inj {c d : Connective}
    (h : c.symbol.toList ++ ' ' :: r = d.symbol.toList ++ ' ' :: s) : c = d ∧ r = s := by
  cases c <;> cases d <;> simp_all [Connective.symbol]

/-- **A bracketed formula is read from the front in one way.** -/
lemma bracketed_append_inj (hf : ∀ y ∈ f.names, IsWord y) (hg : ∀ y ∈ g.names, IsWord y)
    (hr : Breaks r) (hs : Breaks s) (h : f.bracketed.toList ++ r = g.bracketed.toList ++ s) :
    f = g ∧ r = s := by
  induction f using connectiveInduction generalizing g r s with
  | var x =>
      have hx := hf x (by simp [names])
      rw [bracketed] at h
      induction g using connectiveInduction with
      | var y =>
          have hy := hg y (by simp [names])
          have hname : x.toList = y.toList := by
            rw [← hr.takeWhile_eq hx, h, bracketed, hs.takeWhile_eq hy]
          rw [bracketed, hname] at h
          exact ⟨by rw [String.toList_inj.1 hname], List.append_cancel_left h⟩
      | neg b =>
          rw [toList_bracketed_neg] at h
          exact absurd h (hx.append_ne_cons (by decide))
      | join d b b' =>
          rw [toList_bracketed_apply] at h
          exact absurd h (hx.append_ne_cons (by decide))
  | neg a ih =>
      rw [toList_bracketed_neg] at h
      induction g using connectiveInduction with
      | var y =>
          exact absurd h.symm ((hg y (by simp [names])).append_ne_cons (by decide))
      | neg b =>
          rw [toList_bracketed_neg, List.cons_append, List.cons_append, List.cons.injEq] at h
          obtain ⟨rfl, hrest⟩ := ih (g := b) hf hg hr hs h.2
          exact ⟨rfl, hrest⟩
      | join d b b' => simp [toList_bracketed_apply] at h
  | join c a a' iha iha' =>
      rw [names_apply, List.forall_mem_append] at hf
      rw [toList_bracketed_apply] at h
      induction g using connectiveInduction with
      | var y =>
          exact absurd h.symm ((hg y (by simp [names])).append_ne_cons (by decide))
      | neg b => simp [toList_bracketed_neg] at h
      | join d b b' =>
          rw [names_apply, List.forall_mem_append] at hg
          simp only [toList_bracketed_apply, List.cons_append, List.append_assoc, List.nil_append,
            List.cons.injEq, true_and] at h
          -- the left parts end before a space, the right ones before a parenthesis
          obtain ⟨rfl, hsymbol⟩ := iha hf.1 hg.1 (by simp [Breaks]; decide)
            (by simp [Breaks]; decide) h
          obtain ⟨rfl, hright⟩ := symbol_append_inj (List.cons.inj hsymbol).2
          obtain ⟨rfl, hrest⟩ := iha' hf.2 hg.2 (by simp [Breaks]; decide)
            (by simp [Breaks]; decide) hright
          exact ⟨rfl, (List.cons.inj hrest).2⟩

/-- Parentheses put before a bracketed formula are not taken back by something that goes on with
another one. -/
lemma parens_bracketed_inj {k : ℕ} (hf : ∀ y ∈ f.names, IsWord y) (hg : ∀ y ∈ g.names, IsWord y)
    (hr : Closes r) (hs : Breaks s)
    (h : List.replicate k '(' ++ (f.bracketed.toList ++ r) = g.bracketed.toList ++ s) :
    k = 0 ∧ f = g ∧ r = s := by
  induction k generalizing g s with
  | zero => exact ⟨rfl, bracketed_append_inj hf hg hr.breaks hs h⟩
  | succ k ih =>
      rw [List.replicate_succ, List.cons_append] at h
      induction g using connectiveInduction with
      | var y =>
          exact absurd h.symm ((hg y (by simp [names])).append_ne_cons (by decide))
      | neg b => simp [toList_bracketed_neg] at h
      | join d b b' =>
          rw [names_apply, List.forall_mem_append] at hg
          simp only [toList_bracketed_apply, List.cons_append, List.append_assoc,
            List.cons.injEq, true_and] at h
          -- the formula would end where a space stands
          obtain ⟨-, -, hspace⟩ := ih hg.1 (by simp [Breaks]; decide) h
          have := hr ' ' (by simp [hspace])
          contradiction

/-- **Two bracketed formulas between parentheses are equal only in one way.** -/
lemma bracketed_between_inj {i j : ℕ} (hf : ∀ y ∈ f.names, IsWord y)
    (hg : ∀ y ∈ g.names, IsWord y) (hr : Closes r) (hs : Closes s)
    (h : List.replicate i '(' ++ (f.bracketed.toList ++ r) =
      List.replicate j '(' ++ (g.bracketed.toList ++ s)) : f = g ∧ r = s := by
  wlog hij : i ≤ j generalizing f g r s i j
  · obtain ⟨rfl, rfl⟩ := this hg hf hs hr h.symm (Nat.le_of_not_le hij)
    exact ⟨rfl, rfl⟩
  obtain ⟨k, rfl⟩ := Nat.exists_eq_add_of_le hij
  rw [List.replicate_add, List.append_assoc, List.append_cancel_left_eq] at h
  obtain ⟨-, rfl, rfl⟩ := parens_bracketed_inj hg hf hs hr.breaks h.symm
  exact ⟨rfl, rfl⟩

end Formula

end AnnealProver
