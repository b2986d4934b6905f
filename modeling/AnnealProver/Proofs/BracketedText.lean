import Mathlib.Data.List.DropRight
import AnnealProver.Proofs.RoundTrip
import AnnealProver.Proofs.SharedLabels
import AnnealProver.Sampling.Explanation

/-!
# Bracketed formulas cut at their arrow

A formula is printed with parentheses around every binary part.  Here it is said what comes out when
such a text is freed of its outer parentheses and cut at its arrows, as is done to check an
implication, and when its tildes are deleted, as is done for a negation.

There are as many arrows in the text as there are implications in the formula (`Formula.hasArrows`).
If there is one, the piece before it is a name in one case only: the formula **opens** with a symbol
and an arrow, possibly behind parentheses.  The piece behind it is then a name exactly if nothing
but a symbol follows.  In all other cases a tilde, an ampersand or a bar is left in the piece
(`Formula.exists_splitsAt`), and no bit is named so.
-/

namespace AnnealProver

namespace Text

/-! ## Trimming -/

variable {p : Char → Bool} {as bs cs : List Char} {c : Char} {text : String}

lemma dropWhile_append_cons (hc : p c = false) :
    (as ++ c :: bs).dropWhile p = as.dropWhile p ++ c :: bs := by
  induction as with
  | nil => simp [hc]
  | cons a as ih =>
      simp only [List.cons_append, List.dropWhile_cons, ih]
      split_ifs <;> rfl

lemma rdropWhile_append_cons (hc : p c = false) :
    (as ++ c :: bs).rdropWhile p = as ++ c :: bs.rdropWhile p := by
  simp only [List.rdropWhile, List.reverse_append, List.reverse_cons, List.append_assoc,
    List.singleton_append, dropWhile_append_cons hc, List.reverse_reverse]

/-- What is not of the kind stays. -/
lemma mem_dropWhile (hc : c ∈ cs) (hp : p c = false) : c ∈ cs.dropWhile p := by
  obtain ⟨as, bs, rfl⟩ := List.append_of_mem hc
  rw [dropWhile_append_cons hp]
  exact List.mem_append_right _ List.mem_cons_self

lemma mem_rdropWhile (hc : c ∈ cs) (hp : p c = false) : c ∈ cs.rdropWhile p :=
  List.mem_reverse.2 (mem_dropWhile (List.mem_reverse.2 hc) hp)

lemma trimWhere_ofList :
    trimWhere p (String.ofList cs) = String.ofList ((cs.dropWhile p).rdropWhile p) := by
  rw [trimWhere, String.toList_ofList, List.rdropWhile]

lemma mem_trimWhere (hc : c ∈ cs) (hp : p c = false) :
    c ∈ (trimWhere p (String.ofList cs)).toList := by
  rw [trimWhere_ofList, String.toList_ofList]
  exact mem_rdropWhile (mem_dropWhile hc hp) hp

/-- All characters may stand in names. -/
def Continues (text : String) : Prop :=
  ∀ c ∈ text.toList, continuesName c = true

/-- A text of characters that may stand in names, at least one of them. -/
structure IsWord (text : String) : Prop where
  ne_nil : text.toList ≠ []
  continues : Continues text

lemma IsWord.not_mem_hyphen {word : String} (h : IsWord word) : '-' ∉ word.toList :=
  fun hin => absurd (h.continues _ hin) (by decide)

lemma IsWord.dropWhile_eq {word : String} (h : IsWord word)
    (hp : ∀ c, continuesName c = true → p c = false) (has : ∀ c ∈ as, p c = true) :
    (as ++ word.toList ++ bs).dropWhile p = word.toList ++ bs := by
  obtain ⟨c, cs, hword⟩ := List.exists_cons_of_ne_nil h.ne_nil
  have hfirst : p c = false := hp c (h.continues c (by simp [hword]))
  rw [hword, List.append_assoc, List.cons_append, dropWhile_append_cons hfirst,
    List.dropWhile_eq_nil_iff.2 has, List.nil_append]

lemma IsWord.rdropWhile_eq {word : String} (h : IsWord word)
    (hp : ∀ c, continuesName c = true → p c = false) (hbs : ∀ c ∈ bs, p c = true) :
    (as ++ word.toList ++ bs).rdropWhile p = as ++ word.toList := by
  have hlast : p (word.toList.getLast h.ne_nil) = false :=
    hp _ (h.continues _ (List.getLast_mem h.ne_nil))
  rw [← List.dropLast_append_getLast h.ne_nil, ← List.append_assoc, List.append_assoc _ _ bs,
    List.singleton_append, rdropWhile_append_cons hlast, List.rdropWhile_eq_nil_iff.2 hbs]

/-- A word is found between characters of a kind that it has none of. -/
lemma IsWord.trimWhere_eq {word : String} (h : IsWord word)
    (hp : ∀ c, continuesName c = true → p c = false) (has : ∀ c ∈ as, p c = true)
    (hbs : ∀ c ∈ bs, p c = true) :
    trimWhere p (String.ofList (as ++ word.toList ++ bs)) = word := by
  rw [trimWhere_ofList, h.dropWhile_eq hp has, ← List.nil_append word.toList,
    h.rdropWhile_eq hp hbs, List.nil_append, String.ofList_toList]

/-- The parentheses. -/
def isParen (c : Char) : Bool :=
  c == '(' || c == ')'

lemma trimParens_eq : trimParens text = trimWhere isParen text := rfl

lemma trim_eq : trim text = trimWhere isBlank text := rfl

lemma isParen_of_continuesName (h : continuesName c = true) : isParen c = false := by
  rw [← Bool.not_eq_true]
  intro hparen
  have hsign : c ∈ Grammar.signs := by
    rcases Bool.or_eq_true_iff.1 hparen with hc | hc <;> rw [beq_iff_eq.1 hc] <;> decide
  rw [Grammar.continues_sign c hsign] at h
  cases h

/-- The signs of the connectives other than the arrow. -/
def isSign (c : Char) : Bool :=
  ['~', '&', '|'].contains c

lemma isSign_other (h : isSign c = true) :
    continuesName c = false ∧ isParen c = false ∧ isBlank c = false := by
  have hc : c = '~' ∨ c = '&' ∨ c = '|' := by simpa [isSign] using h
  rcases hc with rfl | rfl | rfl <;> decide

/-! ## Cutting at arrows -/

/-- There are so many arrows in the text, and no other hyphen. -/
inductive Arrows : ℕ → List Char → Prop
  | nil : Arrows 0 []
  | other {n : ℕ} {c : Char} {cs : List Char} (hc : '-' ≠ c) (h : Arrows n cs) : Arrows n (c :: cs)
  | arrow {n : ℕ} {cs : List Char} (h : Arrows n cs) : Arrows (n + 1) ('-' :: '>' :: cs)

namespace Arrows

variable {m n : ℕ}

lemma append (has : Arrows m as) (hbs : Arrows n bs) : Arrows (m + n) (as ++ bs) := by
  induction has with
  | nil => rwa [Nat.zero_add]
  | other hc _ ih => exact .other hc ih
  | arrow _ ih =>
      rw [Nat.add_right_comm]
      exact .arrow ih

lemma of_not_mem (h : '-' ∉ cs) : Arrows 0 cs := by
  induction cs with
  | nil => exact .nil
  | cons c cs ih =>
      rw [List.mem_cons, not_or] at h
      exact .other h.1 (ih h.2)

lemma not_mem (h : Arrows 0 cs) : '-' ∉ cs := by
  generalize hn : 0 = n at h
  induction h with
  | nil => simp
  | other hc _ ih => simp [hc, ih hn]
  | arrow => cases hn

lemma length_cut (h : Arrows n cs) (piece : List Char) :
    (cut ['-', '>'] 0 piece cs).length = n + 1 := by
  induction h generalizing piece with
  | nil => rfl
  | other hc _ ih => rw [cut, if_neg (by simp [hc]), ih]
  | arrow _ ih =>
      rw [cut, if_pos (by simp), List.length_cons]
      exact congrArg (· + 1) (ih [])

lemma occursIn (h : Arrows n cs) (hn : n ≠ 0) : occursIn ['-', '>'] cs = true := by
  induction h with
  | nil => exact absurd rfl hn
  | other hc _ ih => rw [Text.occursIn, ih hn, Bool.or_true]
  | arrow _ ih => simp [Text.occursIn]

lemma dropWhile (h : Arrows n cs) (hp : p '-' = false) : Arrows n (cs.dropWhile p) := by
  induction h with
  | nil => exact .nil
  | @other n c cs hc h ih =>
      rw [List.dropWhile_cons]
      split_ifs
      · exact ih
      · exact .other hc h
  | arrow h ih =>
      rw [List.dropWhile_cons, hp]
      exact .arrow h

lemma eq_zero (h : Arrows n cs) (hno : '-' ∉ cs) : n = 0 := by
  have hn := h.length_cut []
  have hzero := (of_not_mem hno).length_cut []
  omega

lemma of_append (h : Arrows n (as ++ bs)) (hbs : '-' ∉ bs) (harrow : '>' ∉ bs) : Arrows n as := by
  generalize hcs : as ++ bs = cs at h
  induction h generalizing as with
  | nil =>
      obtain ⟨rfl, -⟩ := List.append_eq_nil_iff.1 hcs
      exact .nil
  | @other n c cs hc h ih =>
      cases as with
      | nil =>
          rw [List.nil_append] at hcs
          rw [(Arrows.other hc h).eq_zero (hcs ▸ hbs)]
          exact .nil
      | cons a as =>
          rw [List.cons_append, List.cons.injEq] at hcs
          rw [hcs.1]
          exact .other hc (ih hcs.2)
  | @arrow n cs h ih =>
      -- an arrow is not divided between the two parts
      cases as with
      | nil =>
          rw [List.nil_append] at hcs
          simp [hcs] at hbs
      | cons a as =>
          rw [List.cons_append, List.cons.injEq] at hcs
          cases as with
          | nil =>
              rw [List.nil_append] at hcs
              simp [hcs.2] at harrow
          | cons b as =>
              rw [List.cons_append, List.cons.injEq] at hcs
              rw [hcs.1, hcs.2.1]
              exact .arrow (ih hcs.2.2)

/-- Outer parentheses do not matter. -/
lemma trimParens (h : Arrows n text.toList) : Arrows n (Text.trimParens text).toList := by
  have hfront : Arrows n (text.toList.dropWhile isParen) := h.dropWhile (by decide)
  rw [← List.rdropWhile_append_rtakeWhile (p := isParen) (l := text.toList.dropWhile isParen)]
    at hfront
  rw [trimParens_eq, trimWhere, String.toList_ofList, ← List.rdropWhile]
  refine hfront.of_append (fun hin => ?_) fun hin => ?_
  · exact absurd (List.mem_rtakeWhile_imp hin) (by decide)
  · exact absurd (List.mem_rtakeWhile_imp hin) (by decide)

end Arrows

end Text

/-! ## Bracketed formulas -/

namespace Formula

variable {f a b : Formula} {c : Connective}

/-- The number of implications. -/
def arrows : Formula → ℕ
  | var _ => 0
  | neg a => a.arrows
  | impl a b => a.arrows + b.arrows + 1
  | conj a b | disj a b | iff a b => a.arrows + b.arrows

/-- The symbol with which the text of the formula opens, if an arrow comes next. -/
def opener? : Formula → Option String
  | impl (var x) _ => some x
  | conj a _ | disj a _ => a.opener?
  | _ => none

/-- The symbol that follows the arrow, if there is nothing but two symbols and an arrow. -/
def closer? : Formula → Option String
  | impl (var _) (var y) => some y
  | _ => none

/-- The symbol behind the tildes, if there is nothing else. -/
def base? : Formula → Option String
  | var x => some x
  | neg a => a.base?
  | _ => none

/-- A formula without equivalences over symbols that are words. -/
structure Worded (f : Formula) : Prop where
  iffFree : f.IffFree
  words : ∀ y ∈ f.names, Text.IsWord y

lemma toList_bracketed_neg : (neg a).bracketed.toList = '~' :: a.bracketed.toList := by
  rw [bracketed, String.toList_append]
  rfl

lemma toList_bracketed_apply : (c.apply a b).bracketed.toList =
    '(' :: (a.bracketed.toList ++
      ' ' :: (c.symbol.toList ++ ' ' :: (b.bracketed.toList ++ [')']))) := by
  cases c <;> simp [Connective.apply, Connective.symbol, bracketed]

lemma arrows_apply :
    (c.apply a b).arrows = a.arrows + ((if c = .impl then 1 else 0) + b.arrows) := by
  cases c <;> simp [Connective.apply, arrows, Nat.add_comm, Nat.add_left_comm]

/-- The text has as many arrows as the formula. -/
lemma hasArrows (hf : f.IffFree) (hwords : ∀ y ∈ f.names, Text.IsWord y) :
    Text.Arrows f.arrows f.bracketed.toList := by
  induction hf with
  | var x => exact .of_not_mem (hwords x (by simp [names])).not_mem_hyphen
  | neg ha ih =>
      rw [toList_bracketed_neg]
      exact .other (by decide) (ih hwords)
  | @join c a b hc ha hb iha ihb =>
      rw [names_apply, List.forall_mem_append] at hwords
      have hsymbol : Text.Arrows (if c = .impl then 1 else 0) c.symbol.toList := by
        cases c with
        | iff => contradiction
        | impl => exact .arrow .nil
        | conj | disj => exact .of_not_mem (by decide)
      rw [toList_bracketed_apply, arrows_apply]
      refine .other (by decide) ((iha hwords.1).append (.other (by decide) (hsymbol.append ?_)))
      exact .other (by decide) ((ihb hwords.2).append (.of_not_mem (by decide)))

/-- A compound formula without an implication shows another sign. -/
lemma exists_sign (hf : f.IffFree) (harrows : f.arrows = 0) (hvar : ¬ ∃ x, f = .var x) :
    ∃ c ∈ f.bracketed.toList, Text.isSign c = true := by
  cases hf with
  | var x => exact absurd ⟨x, rfl⟩ hvar
  | neg ha => exact ⟨'~', by simp [toList_bracketed_neg], by decide⟩
  | @join c a b hc ha hb =>
      rw [toList_bracketed_apply]
      cases c with
      | iff => contradiction
      | impl => simp [arrows_apply] at harrows
      | conj => exact ⟨'&', by simp [Connective.symbol], by decide⟩
      | disj => exact ⟨'|', by simp [Connective.symbol], by decide⟩

lemma opener?_eq_none (hf : f.IffFree) (harrows : f.arrows = 0) : f.opener? = none := by
  induction hf with
  | var x => rfl
  | neg ha ih => rfl
  | @join c a b hc ha hb iha ihb =>
      rw [arrows_apply] at harrows
      cases c with
      | iff => contradiction
      | impl => simp at harrows
      | conj | disj => exact iha (by omega)

lemma opener?_impl_eq_none (hvar : ¬ ∃ x, a = .var x) :
    (impl a b).opener? = none ∧ (impl a b).closer? = none := by
  cases a with
  | var x => exact absurd ⟨x, rfl⟩ hvar
  | neg | conj | disj | impl | iff => exact ⟨rfl, rfl⟩

/-- What stands before the only arrow. -/
def Front (f : Formula) (before : List Char) : Prop :=
  (∃ x k, f.opener? = some x ∧ before = List.replicate k '(' ++ x.toList ++ [' ']) ∨
    f.opener? = none ∧ ∃ c ∈ before, Text.isSign c = true

/-- What stands behind the only arrow, if a symbol stands before it. -/
def Back (f : Formula) (behind : List Char) : Prop :=
  (∃ y, f.closer? = some y ∧ behind = [' '] ++ y.toList ++ [')']) ∨
    f.closer? = none ∧ (f.opener? = none ∨ ∃ c ∈ behind, Text.isSign c = true)

/-- The text of a formula with one implication, divided at its arrow. -/
structure SplitsAt (f : Formula) (before behind : List Char) : Prop where
  text : f.bracketed.toList = before ++ '-' :: '>' :: behind
  not_mem_before : '-' ∉ before
  not_mem_behind : '-' ∉ behind
  front : f.Front before
  back : f.Back behind

variable {before behind : List Char}

lemma SplitsAt.neg (h : a.SplitsAt before behind) : (neg a).SplitsAt ('~' :: before) behind where
  text := by rw [toList_bracketed_neg, h.text, List.cons_append]
  not_mem_before := by simp [h.not_mem_before]
  not_mem_behind := h.not_mem_behind
  front := Or.inr ⟨rfl, '~', by simp, by decide⟩
  back := Or.inr ⟨rfl, Or.inl rfl⟩

lemma splitsAt_impl (ha : a.IffFree) (hb : b.IffFree)
    (hwords : ∀ y ∈ (impl a b).names, Text.IsWord y) (hleft : a.arrows = 0)
    (hright : b.arrows = 0) : (impl a b).SplitsAt
      ('(' :: (a.bracketed.toList ++ [' '])) (' ' :: (b.bracketed.toList ++ [')'])) := by
  rw [names, List.forall_mem_append] at hwords
  have harrowsLeft := hasArrows ha hwords.1
  have harrowsRight := hasArrows hb hwords.2
  rw [hleft] at harrowsLeft
  rw [hright] at harrowsRight
  refine ⟨by simp [bracketed], by simp [harrowsLeft.not_mem], by simp [harrowsRight.not_mem], ?_,
    ?_⟩
  · by_cases hvar : ∃ x, a = .var x
    · obtain ⟨x, rfl⟩ := hvar
      exact Or.inl ⟨x, 1, rfl, rfl⟩
    · obtain ⟨c, hc, hsign⟩ := exists_sign ha hleft hvar
      exact Or.inr ⟨(opener?_impl_eq_none hvar).1, c, by simp [hc], hsign⟩
  · by_cases hvar : ∃ x, a = .var x
    · obtain ⟨x, rfl⟩ := hvar
      by_cases hvar : ∃ y, b = .var y
      · obtain ⟨y, rfl⟩ := hvar
        exact Or.inl ⟨y, rfl, rfl⟩
      · obtain ⟨c, hc, hsign⟩ := exists_sign hb hright hvar
        refine Or.inr ⟨?_, Or.inr ⟨c, by simp [hc], hsign⟩⟩
        cases b with
        | var y => exact absurd ⟨y, rfl⟩ hvar
        | neg | conj | disj | impl | iff => rfl
    · obtain ⟨hopener, hcloser⟩ := opener?_impl_eq_none (b := b) hvar
      exact Or.inr ⟨hcloser, Or.inl hopener⟩

/-- The connectives that are written with one sign. -/
lemma exists_sign_symbol (hc : c = .conj ∨ c = .disj) :
    ∃ d, c.symbol.toList = [d] ∧ Text.isSign d = true ∧ '-' ≠ d := by
  rcases hc with rfl | rfl
  · exact ⟨'&', rfl, by decide, by decide⟩
  · exact ⟨'|', rfl, by decide, by decide⟩

lemma opener?_apply (hc : c = .conj ∨ c = .disj) : (c.apply a b).opener? = a.opener? := by
  rcases hc with rfl | rfl <;> rfl

lemma closer?_apply (hc : c = .conj ∨ c = .disj) : (c.apply a b).closer? = none := by
  rcases hc with rfl | rfl <;> rfl

/-- The implication is in the left part. -/
lemma SplitsAt.left (hc : c = .conj ∨ c = .disj) (h : a.SplitsAt before behind)
    (hb : '-' ∉ b.bracketed.toList) : (c.apply a b).SplitsAt ('(' :: before)
      (behind ++ ' ' :: (c.symbol.toList ++ ' ' :: (b.bracketed.toList ++ [')']))) := by
  obtain ⟨d, hsymbol, hsign, hd⟩ := exists_sign_symbol hc
  refine ⟨by simp [toList_bracketed_apply, h.text], by simp [h.not_mem_before],
    by simp [h.not_mem_behind, hsymbol, hd, hb], ?_,
    Or.inr ⟨closer?_apply hc, Or.inr ⟨d, by simp [hsymbol], hsign⟩⟩⟩
  rw [Front, opener?_apply hc]
  rcases h.front with ⟨x, k, hx, hbefore⟩ | ⟨hnone, e, he, hsign⟩
  · exact Or.inl ⟨x, k + 1, hx, by rw [hbefore]; rfl⟩
  · exact Or.inr ⟨hnone, e, by simp [he], hsign⟩

/-- The implication is in the right part. -/
lemma SplitsAt.right (hc : c = .conj ∨ c = .disj) (h : b.SplitsAt before behind)
    (ha : '-' ∉ a.bracketed.toList) (hopener : a.opener? = none) : (c.apply a b).SplitsAt
      ('(' :: (a.bracketed.toList ++ ' ' :: (c.symbol.toList ++ ' ' :: before)))
      (behind ++ [')']) := by
  obtain ⟨d, hsymbol, hsign, hd⟩ := exists_sign_symbol hc
  have hnone : (c.apply a b).opener? = none := by rw [opener?_apply hc, hopener]
  exact ⟨by simp [toList_bracketed_apply, h.text], by simp [ha, hsymbol, hd, h.not_mem_before],
    by simp [h.not_mem_behind], Or.inr ⟨hnone, d, by simp [hsymbol], hsign⟩,
    Or.inr ⟨closer?_apply hc, Or.inl hnone⟩⟩

/-- **A formula with one implication is divided at its arrow.** -/
theorem exists_splitsAt (hf : f.IffFree) (hwords : ∀ y ∈ f.names, Text.IsWord y)
    (harrows : f.arrows = 1) : ∃ before behind, f.SplitsAt before behind := by
  induction hf with
  | var x => simp [arrows] at harrows
  | neg ha ih =>
      obtain ⟨before, behind, h⟩ := ih hwords harrows
      exact ⟨_, _, h.neg⟩
  | @join c a b hc ha hb iha ihb =>
      by_cases himpl : c = .impl
      · subst himpl
        rw [arrows_apply, if_pos rfl] at harrows
        exact ⟨_, _, splitsAt_impl ha hb hwords (by omega) (by omega)⟩
      · have hother : c = .conj ∨ c = .disj := by
          cases c <;> simp_all
        rw [arrows_apply, if_neg himpl, Nat.zero_add] at harrows
        rw [names_apply, List.forall_mem_append] at hwords
        have hleft := hasArrows ha hwords.1
        have hright := hasArrows hb hwords.2
        rcases Nat.eq_zero_or_pos a.arrows with hzero | hpos
        · rw [hzero] at hleft
          obtain ⟨before, behind, h⟩ := ihb hwords.2 (by omega)
          exact ⟨_, _, h.right hother hleft.not_mem (opener?_eq_none ha hzero)⟩
        · rw [show b.arrows = 0 by omega] at hright
          obtain ⟨before, behind, h⟩ := iha hwords.1 (by omega)
          exact ⟨_, _, h.left hother hright.not_mem⟩

end Formula

/-! ## What is read off the text -/

namespace Text

variable {text : String} {cs : List Char}

/-- The text is the given name, or, if none is given, it is no name at all. -/
def Shows (name? : Option String) (text : String) : Prop :=
  match name? with
  | some x => text = x
  | none => ∃ c ∈ text.toList, continuesName c = false

lemma flatten_cut_tilde (piece : List Char) :
    (cut ['~'] 0 piece cs).flatten = piece.reverse ++ cs.filter (· != '~') := by
  induction cs generalizing piece with
  | nil => simp [cut]
  | cons c cs ih =>
      by_cases hc : c = '~'
      · subst hc
        rw [cut, if_pos (by simp), List.flatten_cons]
        simp [ih]
      · rw [cut, if_neg (by simp [Ne.symm hc]), ih]
        simp [hc]

lemma intercalate_nil_eq_flatten (parts : List (List Char)) :
    [].intercalate parts = parts.flatten := by
  induction parts with
  | nil => rfl
  | cons cs rest ih =>
      cases rest with
      | nil => simp
      | cons ds rest =>
          rw [List.intercalate_cons_cons, ih, List.append_nil]
          rfl

lemma replace_tilde : replace "~" "" text = String.ofList (text.toList.filter (· != '~')) := by
  have hpieces : (split "~" text).map String.toList = cut ['~'] 0 [] text.toList := by
    simp [split]
  have hjoined := (intercalate_nil_eq_flatten _).trans (@flatten_cut_tilde text.toList [])
  rw [← String.toList_inj, replace, String.toList_intercalate, hpieces, String.toList_ofList]
  exact hjoined.trans String.toList_ofList.symm

lemma occursIn_singleton {c : Char} : occursIn [c] cs = true ↔ c ∈ cs := by
  induction cs with
  | nil => simp [occursIn]
  | cons d cs ih => simp [occursIn, ih]

end Text

namespace Formula

variable {f a b : Formula} {c : Connective} {x : String} {before behind : List Char}

lemma mem_names_of_opener? (h : f.opener? = some x) : x ∈ f.names := by
  fun_induction opener? f with
  | case1 y b => simp_all [names]
  | case2 a b ih => simp [names, ih h]
  | case3 a b ih => simp [names, ih h]
  | case4 => cases h

lemma mem_names_of_closer? (h : f.closer? = some x) : x ∈ f.names := by
  fun_cases closer? f with
  | case1 y z => simp_all [closer?, names]
  | case2 => simp_all [closer?]

/-- The two pieces around the only arrow. -/
lemma SplitsAt.outerArrow? (h : f.SplitsAt before behind) : LabelView.outerArrow? f.bracketed =
    some (Text.trim (String.ofList (before.dropWhile Text.isParen)),
      Text.trim (String.ofList (behind.rdropWhile Text.isParen))) := by
  have harrow : ('>' :: behind).rdropWhile Text.isParen = '>' :: behind.rdropWhile Text.isParen :=
    @Text.rdropWhile_append_cons Text.isParen [] behind '>' (by decide)
  have htrimmed : (Text.trimParens f.bracketed).toList =
      before.dropWhile Text.isParen ++ '-' :: (['>'] ++ behind.rdropWhile Text.isParen) := by
    rw [Text.trimParens_eq, Text.trimWhere, String.toList_ofList, ← List.rdropWhile, h.text,
      Text.dropWhile_append_cons (by decide), Text.rdropWhile_append_cons (by decide), harrow,
      List.singleton_append]
  have hfront : '-' ∉ before.dropWhile Text.isParen :=
    fun hin => h.not_mem_before ((List.dropWhile_suffix _).mem hin)
  have hback : '-' ∉ behind.rdropWhile Text.isParen :=
    fun hin => h.not_mem_behind ((List.rdropWhile_prefix _ _).mem hin)
  have hpieces : Text.cut ['-', '>'] 0 [] (Text.trimParens f.bracketed).toList =
      [before.dropWhile Text.isParen, behind.rdropWhile Text.isParen] := by
    rw [htrimmed, Text.cut_append hfront, Text.cut_last hback]
    rfl
  have hsplit : Text.split "->" (Text.trimParens f.bracketed) =
      [before.dropWhile Text.isParen, behind.rdropWhile Text.isParen].map String.ofList :=
    congrArg (List.map String.ofList) hpieces
  rw [LabelView.outerArrow?, hsplit]
  rfl

/-- **What is read off the text of a formula with one implication.** -/
lemma exists_outerArrow? (hf : f.Worded) (harrows : f.arrows = 1) :
    ∃ left right, LabelView.outerArrow? f.bracketed = some (left, right) ∧
      Text.Shows f.opener? left ∧ (f.opener? = none ∨ Text.Shows f.closer? right) := by
  obtain ⟨before, behind, h⟩ := exists_splitsAt hf.iffFree hf.words harrows
  refine ⟨_, _, h.outerArrow?, ?_, ?_⟩
  · rcases h.front with ⟨x, k, hx, rfl⟩ | ⟨hnone, c, hc, hsign⟩
    · have hword : Text.IsWord x := hf.words x (mem_names_of_opener? hx)
      have htrim : Text.trim (String.ofList ([] ++ x.toList ++ [' '])) = x :=
        hword.trimWhere_eq (fun _ => Text.isBlank_of_continuesName) (by simp)
          (List.forall_mem_singleton.2 (by decide))
      rw [hx, hword.dropWhile_eq (fun _ => Text.isParen_of_continuesName)
        (fun c hc => by rw [List.eq_of_mem_replicate hc]; rfl)]
      exact htrim
    · obtain ⟨hname, hparen, hblank⟩ := Text.isSign_other hsign
      rw [hnone]
      exact ⟨c, Text.mem_trimWhere (Text.mem_dropWhile hc hparen) hblank, hname⟩
  · rcases h.back with ⟨y, hy, rfl⟩ | ⟨hnone, hopener | ⟨c, hc, hsign⟩⟩
    · have hword : Text.IsWord y := hf.words y (mem_names_of_closer? hy)
      have htrim : Text.trim (String.ofList ([' '] ++ y.toList ++ [])) = y :=
        hword.trimWhere_eq (fun _ => Text.isBlank_of_continuesName)
          (List.forall_mem_singleton.2 (by decide)) (by simp)
      rw [hy, hword.rdropWhile_eq (fun _ => Text.isParen_of_continuesName)
        (List.forall_mem_singleton.2 (by decide))]
      rw [List.append_nil] at htrim
      exact Or.inr htrim
    · exact Or.inl hopener
    · obtain ⟨hname, hparen, hblank⟩ := Text.isSign_other hsign
      rw [hnone]
      exact Or.inr ⟨c, Text.mem_trimWhere (Text.mem_rdropWhile hc hparen) hblank, hname⟩

/-- The text of a formula with another number of implications is not understood. -/
lemma outerArrow?_eq_none (hf : f.Worded) (harrows : f.arrows ≠ 1) :
    LabelView.outerArrow? f.bracketed = none := by
  have hlength : (Text.split "->" (Text.trimParens f.bracketed)).length = f.arrows + 1 := by
    rw [Text.split, List.length_map]
    exact (hasArrows hf.iffFree hf.words).trimParens.length_cut []
  rw [LabelView.outerArrow?]
  split
  · next left right hpieces =>
      rw [hpieces] at hlength
      exact absurd (Nat.succ.inj hlength).symm harrows
  · rfl

/-! ### Negations -/

/-- A tilde is in the text exactly if there is a negation. -/
lemma tilde_mem_iff (hf : f.IffFree) (hwords : ∀ y ∈ f.names, Text.IsWord y) :
    '~' ∈ f.bracketed.toList ↔ ∃ a, .neg a ∈ f.subformulas := by
  induction hf with
  | var x =>
      have hx : '~' ∉ x.toList := fun hin =>
        absurd ((hwords x (by simp [names])).continues _ hin) (by decide)
      simp [bracketed, subformulas, hx]
  | neg ha ih => simp [toList_bracketed_neg, subformulas]
  | @join c a b hc ha hb iha ihb =>
      rw [names_apply, List.forall_mem_append] at hwords
      have hsymbol : '~' ∉ c.symbol.toList := by cases c <;> decide
      have hself : ∀ d, c.apply a b ≠ .neg d := by
        intro d heq
        cases c <;> cases heq
      simp [toList_bracketed_apply, subformulas_apply, hsymbol, iha hwords.1, ihb hwords.2,
        exists_or, Ne.symm (hself _)]

lemma filter_bracketed_of_base? (h : f.base? = some x) (hx : Text.IsWord x) :
    f.bracketed.toList.filter (· != '~') = x.toList := by
  induction f using connectiveInduction with
  | var y =>
      obtain rfl := Option.some.inj h
      rw [bracketed, List.filter_eq_self]
      intro c hc
      rw [bne_iff_ne]
      rintro rfl
      exact absurd (hx.continues _ hc) (by decide)
  | neg a ih => rw [toList_bracketed_neg, List.filter_cons_of_neg (by decide), ih h]
  | join c a b iha ihb => cases c <;> cases h

lemma paren_mem_of_base? (h : f.base? = none) : '(' ∈ f.bracketed.toList := by
  induction f using connectiveInduction with
  | var y => cases h
  | neg a ih =>
      rw [toList_bracketed_neg]
      exact List.mem_cons_of_mem _ (ih h)
  | join c a b iha ihb =>
      rw [toList_bracketed_apply]
      exact List.mem_cons_self

lemma mem_names_of_base? (h : f.base? = some x) : x ∈ f.names := by
  induction f using connectiveInduction with
  | var y =>
      obtain rfl := Option.some.inj h
      exact List.mem_cons_self
  | neg a ih => exact ih h
  | join c a b iha ihb => cases c <;> cases h

/-- **Without its tildes, the text is a name exactly if there is a symbol under negations only.** -/
lemma shows_base? (hf : f.Worded) :
    Text.Shows f.base? (Text.trim (Text.replace "~" "" f.bracketed)) := by
  rw [Text.replace_tilde]
  cases hbase : f.base? with
  | some x =>
      have hword := hf.words x (mem_names_of_base? hbase)
      have htrim : Text.trim (String.ofList ([] ++ x.toList ++ [])) = x :=
        hword.trimWhere_eq (fun _ => Text.isBlank_of_continuesName) (by simp) (by simp)
      rw [List.append_nil, List.nil_append] at htrim
      rwa [filter_bracketed_of_base? hbase hword]
  | none =>
      have hparen := List.mem_filter_of_mem (paren_mem_of_base? hbase) (p := (· != '~')) (by decide)
      exact ⟨'(', Text.mem_trimWhere hparen (by decide), by decide⟩

end Formula

end AnnealProver
