import AnnealProver.Proofs.BracketedReading

/-!
# Bracketed formulas cut at a connective

To explain a sample, the text of a formula is cut at an arrow or an ampersand, and the two pieces
are freed of blanks and then of parentheses at their ends.  Here it is said what the pieces are.

A text falls into two pieces only if the connective is used once in the formula
(`Formula.pieces?_eq_none`).  Then it stands **around** that use (`Formula.Around`): something, the
left operand, the connective, the right operand, something.  Trimming takes off what stands before
the left operand only if the formula begins with this operand, and what stands behind the right one
only if the formula ends with it.

* A piece is a name exactly if the formula **opens** with this name and the connective, or **ends**
  with the connective and this name (`Formula.exists_piece_left_iff`,
  `Formula.exists_piece_right_iff`).  That does not make the connective the one at the root.
* If the left piece is a name and the right one is a whole formula, they are the operands of the
  connective at the root (`Formula.eq_apply_of_pieces?`).
-/

namespace AnnealProver

/-- The first character of the written connective. -/
def Connective.sign : Connective → Char
  | conj => '&'
  | disj => '|'
  | impl => '-'
  | iff => '<'

/-! ## Trimming -/

namespace Text

variable {p : Char → Bool} {as bs cs ds : List Char} {c : Char}

/-- The first and the last character are not of the kind. -/
structure Edges (p : Char → Bool) (cs : List Char) : Prop where
  first : ∃ c rest, cs = c :: rest ∧ p c = false
  last : ∃ front c, cs = front ++ [c] ∧ p c = false

lemma Edges.trimWhere_eq (h : Edges p cs) (as bs : List Char) (has : ∀ c ∈ as, p c = true)
    (hbs : ∀ c ∈ bs, p c = true) :
    trimWhere p (String.ofList (as ++ (cs ++ bs))) = String.ofList cs := by
  obtain ⟨c, rest, hfirst, hc⟩ := h.first
  obtain ⟨front, d, hlast, hd⟩ := h.last
  have hdrop : (as ++ (cs ++ bs)).dropWhile p = front ++ d :: bs := by
    rw [hfirst, List.cons_append, dropWhile_append_cons hc, List.dropWhile_eq_nil_iff.2 has,
      List.nil_append, ← List.cons_append, ← hfirst, hlast, List.append_assoc,
      List.singleton_append]
  rw [trimWhere_ofList, hdrop, rdropWhile_append_cons hd, List.rdropWhile_eq_nil_iff.2 hbs, hlast]

lemma IsWord.edges {word : String} (h : IsWord word)
    (hp : ∀ c, continuesName c = true → p c = false) : Edges p word.toList := by
  obtain ⟨c, rest, hfirst⟩ := List.exists_cons_of_ne_nil h.ne_nil
  refine ⟨⟨c, rest, hfirst, hp c (h.continues c (by simp [hfirst]))⟩, ?_⟩
  exact ⟨_, _, (List.dropLast_append_getLast h.ne_nil).symm,
    hp _ (h.continues _ (List.getLast_mem h.ne_nil))⟩

lemma Edges.trim_concat (h : Edges isBlank cs) :
    trim (String.ofList (cs ++ [' '])) = String.ofList cs :=
  h.trimWhere_eq [] [' '] (by simp) (List.forall_mem_singleton.2 (by decide))

lemma Edges.trim_cons (h : Edges isBlank cs) :
    trim (String.ofList (' ' :: cs)) = String.ofList cs := by
  have htrim := h.trimWhere_eq [' '] [] (List.forall_mem_singleton.2 (by decide)) (by simp)
  rwa [List.append_nil] at htrim

lemma Edges.singleton (hc : p c = false) : Edges p [c] :=
  ⟨⟨c, [], rfl, hc⟩, [], c, rfl, hc⟩

lemma Edges.append (hcs : Edges p cs) (hds : Edges p ds) (between : List Char) :
    Edges p (cs ++ (between ++ ds)) := by
  obtain ⟨c, rest, hfirst, hc⟩ := hcs.first
  obtain ⟨front, d, hlast, hd⟩ := hds.last
  exact ⟨⟨c, _, by rw [hfirst, List.cons_append], hc⟩,
    cs ++ (between ++ front), d, by simp [hlast], hd⟩

/-- Between opening and closing parentheses there is something that has none at its ends. -/
def Cored (cs : List Char) : Prop :=
  ∃ i core j, cs = List.replicate i '(' ++ (core ++ List.replicate j ')') ∧ Edges isParen core

namespace Cored

lemma opening (h : Cored cs) : Cored ('(' :: cs) := by
  obtain ⟨i, core, j, rfl, hcore⟩ := h
  exact ⟨i + 1, core, j, rfl, hcore⟩

lemma closing (h : Cored cs) : Cored (cs ++ [')']) := by
  obtain ⟨i, core, j, rfl, hcore⟩ := h
  exact ⟨i, core, j + 1, by simp [List.replicate_succ'], hcore⟩

lemma cons (h : Cored cs) (hc : isParen c = false) : Cored (c :: cs) := by
  obtain ⟨i, core, j, rfl, hcore⟩ := h
  exact ⟨0, [c] ++ (List.replicate i '(' ++ core), j, by simp,
    (Edges.singleton hc).append hcore _⟩

lemma append (hcs : Cored cs) (hds : Cored ds) (between : List Char) :
    Cored (cs ++ (between ++ ds)) := by
  obtain ⟨i, core, j, rfl, hcore⟩ := hcs
  obtain ⟨k, core', l, rfl, hcore'⟩ := hds
  exact ⟨i, core ++ ((List.replicate j ')' ++ (between ++ List.replicate k '(')) ++ core'), l,
    by simp, hcore.append hcore' _⟩

/-- Trimming takes opening parentheses off the front and closing ones off the end. -/
lemma trimParens_eq (h : Cored cs) : ∃ i j, cs = List.replicate i '(' ++
    ((trimParens (String.ofList cs)).toList ++ List.replicate j ')') := by
  obtain ⟨i, core, j, rfl, hcore⟩ := h
  refine ⟨i, j, ?_⟩
  rw [Text.trimParens_eq, hcore.trimWhere_eq, String.toList_ofList]
  · intro c hc
    rw [List.eq_of_mem_replicate hc]
    rfl
  · intro c hc
    rw [List.eq_of_mem_replicate hc]
    rfl

end Cored

lemma length_cut_singleton (piece : List Char) :
    (cut [c] 0 piece cs).length = cs.count c + 1 := by
  induction cs generalizing piece with
  | nil => rfl
  | cons d cs ih =>
      by_cases hd : d = c
      · subst hd
        rw [cut, if_pos (by simp), List.length_cons, List.count_cons_self]
        exact congrArg (· + 1) (ih [])
      · rw [cut, if_neg (by simp [Ne.symm hd]), ih, List.count_cons_of_ne hd]

/-- A text in which the mark begins in one place only is cut there. -/
lemma split_of_count_eq_one {mark text : String} {more : List Char}
    (hmark : mark.toList = c :: more) (htext : text.toList = cs ++ c :: (more ++ ds))
    (hone : text.toList.count c = 1) :
    split mark text = [String.ofList cs, String.ofList ds] := by
  rw [htext, List.count_append, List.count_cons_self, @List.count_append _ _ _ more] at hone
  rw [split, hmark, htext, cut_append (List.count_eq_zero.1 (by omega)),
    cut_last (List.count_eq_zero.1 (by omega))]
  rfl

/-- Parentheses and characters of names only. -/
def Plain (cs : List Char) : Prop :=
  ∀ c ∈ cs, isParen c = true ∨ continuesName c = true

lemma plain_of_isWord_trimParens (h : IsWord (trimParens (String.ofList cs))) : Plain cs := by
  intro c hc
  cases hparen : isParen c with
  | true => exact Or.inl rfl
  | false => exact Or.inr (h.continues c (mem_trimWhere hc hparen))

lemma plain_append : Plain (as ++ bs) ↔ Plain as ∧ Plain bs :=
  List.forall_mem_append

lemma plain_cons : Plain (c :: cs) ↔ (isParen c = true ∨ continuesName c = true) ∧ Plain cs :=
  List.forall_mem_cons

/-- A blank is not plain. -/
lemma not_plain_blank : ¬ Plain (as ++ ' ' :: bs) := by
  intro h
  have hblank := h ' ' (by simp)
  revert hblank
  decide

end Text

open Text

lemma Connective.exists_symbol (c : Connective) : ∃ more, c.symbol.toList = c.sign :: more := by
  cases c <;> exact ⟨_, rfl⟩

/-! ## How often a connective is used -/

namespace Formula

variable {f g a b : Formula} {c d : Connective} {x y : String} {before behind : List Char}

/-- How often a connective is used. -/
def uses (c : Connective) : Formula → ℕ
  | var _ => 0
  | neg a => a.uses c
  | conj a b => (if c = .conj then 1 else 0) + (a.uses c + b.uses c)
  | disj a b => (if c = .disj then 1 else 0) + (a.uses c + b.uses c)
  | impl a b => (if c = .impl then 1 else 0) + (a.uses c + b.uses c)
  | iff a b => (if c = .iff then 1 else 0) + (a.uses c + b.uses c)

lemma uses_apply :
    (d.apply a b).uses c = (if c = d then 1 else 0) + (a.uses c + b.uses c) := by
  cases d <;> rfl

lemma uses_impl : f.uses .impl = f.arrows := by
  induction f using connectiveInduction with
  | var x => rfl
  | neg a ih => exact ih
  | join d a b iha ihb =>
      rw [uses_apply, arrows_apply, iha, ihb]
      simp only [eq_comm]
      omega

/-- The sign of a connective is in the text as often as the connective is used. -/
lemma count_sign (hf : f.Worded) (hc : c ≠ .iff) :
    f.bracketed.toList.count c.sign = f.uses c := by
  obtain ⟨hfree, hwords⟩ := hf
  induction hfree with
  | var x =>
      refine List.count_eq_zero.2 fun hin => ?_
      have := (hwords x (by simp [names])).continues _ hin
      cases c <;> revert this <;> decide
  | neg ha ih =>
      rw [toList_bracketed_neg, List.count_cons_of_ne (by cases c <;> decide), ih hwords]
      rfl
  | @join d a b hd ha hb iha ihb =>
      rw [names_apply, List.forall_mem_append] at hwords
      have hsymbol : d.symbol.toList.count c.sign = if c = d then 1 else 0 := by
        cases d with
        | iff => exact absurd rfl hd
        | conj | disj | impl =>
            cases c with
            | iff => exact absurd rfl hc
            | conj | disj | impl => decide
      have hblank : ' ' ≠ c.sign := by cases c <;> decide
      have hopening : '(' ≠ c.sign := by cases c <;> decide
      have hclosing : ')' ≠ c.sign := by cases c <;> decide
      simp only [toList_bracketed_apply, List.count_append, List.count_cons_of_ne hblank,
        List.count_cons_of_ne hopening, List.count_cons_of_ne hclosing, List.count_nil,
        iha hwords.1, ihb hwords.2, hsymbol, uses_apply]
      omega

lemma length_split (hf : f.Worded) (hc : c ≠ .iff) :
    (Text.split c.symbol f.bracketed).length = f.uses c + 1 := by
  rw [Text.split, List.length_map]
  cases c with
  | iff => contradiction
  | impl =>
      rw [uses_impl]
      exact (hasArrows hf.iffFree hf.words).length_cut []
  | conj | disj =>
      rw [← count_sign hf hc]
      exact length_cut_singleton []

/-! ## Around one use of a connective -/

/-- The text of a formula around one use of a connective: what stands before the left operand, and
what stands behind the right one. -/
inductive Around (c : Connective) (a b : Formula) : Formula → List Char → List Char → Prop
  | here : Around c a b (c.apply a b) ['('] [')']
  | neg {f : Formula} {before behind : List Char} (h : Around c a b f before behind) :
      Around c a b (.neg f) ('~' :: before) behind
  | left {d : Connective} {f g : Formula} {before behind : List Char}
      (h : Around c a b f before behind) : Around c a b (d.apply f g) ('(' :: before)
        (behind ++ ' ' :: (d.symbol.toList ++ ' ' :: (g.bracketed.toList ++ [')'])))
  | right {d : Connective} {f g : Formula} {before behind : List Char}
      (h : Around c a b g before behind) : Around c a b (d.apply f g)
        ('(' :: (f.bracketed.toList ++ ' ' :: (d.symbol.toList ++ ' ' :: before)))
        (behind ++ [')'])

lemma exists_around (h : f.uses c ≠ 0) :
    ∃ a b before behind, Around c a b f before behind := by
  induction f using connectiveInduction with
  | var x => exact absurd rfl h
  | neg f ih =>
      obtain ⟨a, b, before, behind, hf⟩ := ih h
      exact ⟨a, b, _, _, hf.neg⟩
  | join d f g ihf ihg =>
      by_cases hd : c = d
      · subst hd
        exact ⟨f, g, _, _, .here⟩
      · rw [uses_apply, if_neg hd, Nat.zero_add] at h
        by_cases hf : f.uses c = 0
        · obtain ⟨a, b, before, behind, hg⟩ := ihg (by omega)
          exact ⟨a, b, _, _, hg.right⟩
        · obtain ⟨a, b, before, behind, hf⟩ := ihf hf
          exact ⟨a, b, _, _, hf.left⟩

namespace Around

lemma text (h : Around c a b f before behind) : f.bracketed.toList =
    before ++ (a.bracketed.toList ++
      ' ' :: (c.symbol.toList ++ ' ' :: (b.bracketed.toList ++ behind))) := by
  induction h with
  | here => rw [toList_bracketed_apply, List.singleton_append]
  | neg h ih => rw [toList_bracketed_neg, ih, List.cons_append]
  | left h ih => simp [toList_bracketed_apply, ih]
  | right h ih => simp [toList_bracketed_apply, ih]

lemma mem_names (h : Around c a b f before behind) (hx : x ∈ (c.apply a b).names) :
    x ∈ f.names := by
  induction h with
  | here => exact hx
  | neg h ih => exact ih
  | left h ih => simp [names_apply, ih]
  | right h ih => simp [names_apply, ih]

lemma uses_pos (h : Around c a b f before behind) : 0 < f.uses c := by
  induction h with
  | here => simp [uses_apply]
  | neg h ih => exact ih
  | left h ih | right h ih =>
      rw [uses_apply]
      omega

lemma exists_behind (h : Around c a b f before behind) : ∃ rest, behind = ')' :: rest := by
  induction h with
  | here => exact ⟨[], rfl⟩
  | neg h ih => exact ih
  | left h ih | right h ih =>
      obtain ⟨rest, rfl⟩ := ih
      exact ⟨_, rfl⟩

/-- No blanks are at the outer ends. -/
lemma edges (h : Around c a b f before behind) : Edges isBlank before ∧ Edges isBlank behind := by
  have hopening : Edges isBlank ['('] := .singleton (by decide)
  have hclosing : Edges isBlank [')'] := .singleton (by decide)
  have htilde : Edges isBlank ['~'] := .singleton (by decide)
  induction h with
  | here => exact ⟨hopening, hclosing⟩
  | neg h ih => exact ⟨htilde.append ih.1 [], ih.2⟩
  | @left d f g before behind h ih =>
      refine ⟨hopening.append ih.1 [], ?_⟩
      simpa using ih.2.append hclosing (' ' :: (d.symbol.toList ++ ' ' :: g.bracketed.toList))
  | @right d f g before behind h ih =>
      refine ⟨?_, ih.2.append hclosing []⟩
      simpa using hopening.append ih.1 (f.bracketed.toList ++ ' ' :: (d.symbol.toList ++ [' ']))

end Around

lemma edges_bracketed (hf : ∀ y ∈ f.names, IsWord y) : Edges isBlank f.bracketed.toList := by
  induction f using connectiveInduction with
  | var x => exact (hf x (by simp [names])).edges fun _ => isBlank_of_continuesName
  | neg a ih =>
      rw [toList_bracketed_neg]
      exact (Edges.singleton (by decide)).append (ih hf) []
  | join d a b iha ihb =>
      have hends : Edges isBlank (['('] ++ ((a.bracketed.toList ++
          ' ' :: (d.symbol.toList ++ ' ' :: b.bracketed.toList)) ++ [')'])) :=
        (Edges.singleton (by decide)).append (.singleton (by decide)) _
      simpa [toList_bracketed_apply] using hends

namespace Around

/-- **The two pieces around the only use of a connective.** -/
lemma pieces? (h : Around c a b f before behind) (hf : f.Worded) (hc : c ≠ .iff)
    (hone : f.uses c = 1) : LabelView.pieces? c.symbol f.bracketed =
      some (trimParens (String.ofList (before ++ a.bracketed.toList)),
        trimParens (String.ofList (b.bracketed.toList ++ behind))) := by
  obtain ⟨more, hmore⟩ := c.exists_symbol
  have hwords : ∀ y ∈ (c.apply a b).names, IsWord y := fun y hy => hf.words y (h.mem_names hy)
  rw [names_apply, List.forall_mem_append] at hwords
  have hleft : Edges isBlank (before ++ a.bracketed.toList) :=
    h.edges.1.append (edges_bracketed hwords.1) []
  have hright : Edges isBlank (b.bracketed.toList ++ behind) :=
    (edges_bracketed hwords.2).append h.edges.2 []
  -- the sign is nowhere but in the connective
  have htext : f.bracketed.toList = (before ++ a.bracketed.toList ++ [' ']) ++
      c.sign :: (more ++ ' ' :: (b.bracketed.toList ++ behind)) := by
    simp [h.text, hmore]
  have hsplit := split_of_count_eq_one hmore htext ((count_sign hf hc).trans hone)
  rw [LabelView.pieces?, hsplit]
  simp only [hleft.trim_concat, hright.trim_cons]

end Around

/-- A text is not cut in two unless the connective is used once. -/
lemma pieces?_eq_none (hf : f.Worded) (hc : c ≠ .iff) (hmany : f.uses c ≠ 1) :
    LabelView.pieces? c.symbol f.bracketed = none := by
  have hlength := length_split hf hc
  rw [LabelView.pieces?]
  split
  · next left right hpieces =>
      rw [hpieces] at hlength
      exact absurd (Nat.succ.inj hlength).symm hmany
  · rfl

lemma uses_eq_one_of_pieces? {pieces : String × String} (hf : f.Worded) (hc : c ≠ .iff)
    (h : LabelView.pieces? c.symbol f.bracketed = some pieces) : f.uses c = 1 := by
  by_contra hmany
  rw [pieces?_eq_none hf hc hmany] at h
  cases h

/-! ## Pieces that are names -/

/-- Only a symbol has a plain text. -/
lemma exists_var_of_plain (h : Plain f.bracketed.toList) : ∃ x, f = .var x := by
  induction f using connectiveInduction with
  | var x => exact ⟨x, rfl⟩
  | neg a ih =>
      rw [toList_bracketed_neg, plain_cons] at h
      exact absurd h.1 (by decide)
  | join d a b iha ihb =>
      rw [toList_bracketed_apply, ← List.cons_append] at h
      exact absurd h not_plain_blank

/-- The formula opens with the symbol and the connective. -/
inductive Opens (c : Connective) (x : String) : Formula → Prop
  | here (b : Formula) : Opens c x (c.apply (.var x) b)
  | left (d : Connective) {a : Formula} (b : Formula) (h : Opens c x a) : Opens c x (d.apply a b)

/-- The formula ends with the connective and the symbol. -/
inductive Ends (c : Connective) (x : String) : Formula → Prop
  | here (a : Formula) : Ends c x (c.apply a (.var x))
  | neg {a : Formula} (h : Ends c x a) : Ends c x (.neg a)
  | right (d : Connective) (a : Formula) {b : Formula} (h : Ends c x b) : Ends c x (d.apply a b)

lemma Around.opens (h : Around c (.var x) b f before behind) (hplain : Plain before) :
    f.Opens c x := by
  induction h with
  | here => exact .here b
  | neg h ih => exact absurd (plain_cons.1 hplain).1 (by decide)
  | left h ih => exact .left _ _ (ih (plain_cons.1 hplain).2)
  | right h ih => exact absurd (plain_cons.1 hplain).2 not_plain_blank

lemma Opens.exists_around (h : f.Opens c x) : ∃ b before behind,
    Around c (.var x) b f before behind ∧ ∀ d ∈ before, isParen d = true := by
  induction h with
  | here b => exact ⟨b, _, _, .here, List.forall_mem_singleton.2 (by decide)⟩
  | left d g h ih =>
      obtain ⟨b, before, behind, haround, hparens⟩ := ih
      exact ⟨b, _, _, haround.left, List.forall_mem_cons.2 ⟨by decide, hparens⟩⟩

lemma Opens.uses_pos (h : f.Opens c x) : 0 < f.uses c := by
  obtain ⟨b, before, behind, haround, -⟩ := h.exists_around
  exact haround.uses_pos

lemma Around.ends (h : Around c a (.var x) f before behind) (hplain : Plain behind) :
    f.Ends c x := by
  induction h with
  | here => exact .here a
  | neg h ih => exact .neg (ih hplain)
  | left h ih => exact absurd hplain not_plain_blank
  | right h ih => exact .right _ _ (ih (plain_append.1 hplain).1)

lemma Ends.exists_around (h : f.Ends c x) : ∃ a before behind,
    Around c a (.var x) f before behind ∧ ∀ d ∈ behind, isParen d = true := by
  induction h with
  | here a => exact ⟨a, _, _, .here, List.forall_mem_singleton.2 (by decide)⟩
  | neg h ih =>
      obtain ⟨a, before, behind, haround, hparens⟩ := ih
      exact ⟨a, _, _, haround.neg, hparens⟩
  | right d f h ih =>
      obtain ⟨a, before, behind, haround, hparens⟩ := ih
      exact ⟨a, _, _, haround.right,
        List.forall_mem_append.2 ⟨hparens, List.forall_mem_singleton.2 (by decide)⟩⟩

lemma Ends.uses_pos (h : f.Ends c x) : 0 < f.uses c := by
  obtain ⟨a, before, behind, haround, -⟩ := h.exists_around
  exact haround.uses_pos

lemma trimParens_before (hx : IsWord x) (hparens : ∀ d ∈ before, isParen d = true) :
    trimParens (String.ofList (before ++ (var x).bracketed.toList)) = x := by
  have htrim : trimParens (String.ofList (before ++ x.toList ++ [])) = x :=
    hx.trimWhere_eq (fun _ => isParen_of_continuesName) hparens (by simp)
  rwa [List.append_nil] at htrim

lemma trimParens_behind (hx : IsWord x) (hparens : ∀ d ∈ behind, isParen d = true) :
    trimParens (String.ofList ((var x).bracketed.toList ++ behind)) = x := by
  have htrim : trimParens (String.ofList ([] ++ x.toList ++ behind)) = x :=
    hx.trimWhere_eq (fun _ => isParen_of_continuesName) (by simp) hparens
  exact htrim

/-- What is plain and stands before the left operand are parentheses. -/
lemma Around.parens_before (h : Around c a b f before behind) (hplain : Plain before) :
    ∀ d ∈ before, isParen d = true := by
  induction h with
  | here => exact List.forall_mem_singleton.2 (by decide)
  | neg h ih => exact absurd (plain_cons.1 hplain).1 (by decide)
  | left h ih => exact List.forall_mem_cons.2 ⟨by decide, ih (plain_cons.1 hplain).2⟩
  | right h ih => exact absurd (plain_cons.1 hplain).2 not_plain_blank

/-- What is plain and stands behind the right operand are parentheses. -/
lemma Around.parens_behind (h : Around c a b f before behind) (hplain : Plain behind) :
    ∀ d ∈ behind, isParen d = true := by
  induction h with
  | here => exact List.forall_mem_singleton.2 (by decide)
  | neg h ih => exact ih hplain
  | left h ih => exact absurd hplain not_plain_blank
  | right h ih =>
      exact List.forall_mem_append.2
        ⟨ih (plain_append.1 hplain).1, List.forall_mem_singleton.2 (by decide)⟩

/-- A left piece that is a name is the left operand, behind parentheses only. -/
lemma Around.eq_var_left (h : Around c a b f before behind) (hf : f.Worded) (hx : IsWord x)
    (hpiece : trimParens (String.ofList (before ++ a.bracketed.toList)) = x) :
    a = .var x ∧ Plain before := by
  rw [← hpiece] at hx
  obtain ⟨hbefore, hleft⟩ := plain_append.1 (plain_of_isWord_trimParens hx)
  obtain ⟨y, rfl⟩ := exists_var_of_plain hleft
  have hy : IsWord y := hf.words y (h.mem_names (by simp [names_apply, names]))
  rw [trimParens_before hy (h.parens_before hbefore)] at hpiece
  exact ⟨by rw [hpiece], hbefore⟩

/-- A right piece that is a name is the right operand, before parentheses only. -/
lemma Around.eq_var_right (h : Around c a b f before behind) (hf : f.Worded) (hx : IsWord x)
    (hpiece : trimParens (String.ofList (b.bracketed.toList ++ behind)) = x) :
    b = .var x ∧ Plain behind := by
  rw [← hpiece] at hx
  obtain ⟨hright, hbehind⟩ := plain_append.1 (plain_of_isWord_trimParens hx)
  obtain ⟨y, rfl⟩ := exists_var_of_plain hright
  have hy : IsWord y := hf.words y (h.mem_names (by simp [names_apply, names]))
  rw [trimParens_behind hy (h.parens_behind hbehind)] at hpiece
  exact ⟨by rw [hpiece], hbehind⟩

/-- **The left piece is a name exactly if the formula opens with it.** -/
theorem exists_piece_left_iff (hf : f.Worded) (hc : c ≠ .iff) (hx : IsWord x) :
    (∃ right, LabelView.pieces? c.symbol f.bracketed = some (x, right)) ↔
      f.uses c = 1 ∧ f.Opens c x := by
  constructor
  · rintro ⟨right, hpieces⟩
    have hone := uses_eq_one_of_pieces? hf hc hpieces
    obtain ⟨a, b, before, behind, h⟩ := exists_around (hone.trans_ne Nat.one_ne_zero)
    rw [h.pieces? hf hc hone, Option.some.injEq, Prod.mk.injEq] at hpieces
    obtain ⟨rfl, hbefore⟩ := h.eq_var_left hf hx hpieces.1
    exact ⟨hone, h.opens hbefore⟩
  · rintro ⟨hone, hopens⟩
    obtain ⟨b, before, behind, h, hparens⟩ := hopens.exists_around
    rw [h.pieces? hf hc hone, trimParens_before hx hparens]
    exact ⟨_, rfl⟩

/-- **The right piece is a name exactly if the formula ends with it.** -/
theorem exists_piece_right_iff (hf : f.Worded) (hc : c ≠ .iff) (hx : IsWord x) :
    (∃ left, LabelView.pieces? c.symbol f.bracketed = some (left, x)) ↔
      f.uses c = 1 ∧ f.Ends c x := by
  constructor
  · rintro ⟨left, hpieces⟩
    have hone := uses_eq_one_of_pieces? hf hc hpieces
    obtain ⟨a, b, before, behind, h⟩ := exists_around (hone.trans_ne Nat.one_ne_zero)
    rw [h.pieces? hf hc hone, Option.some.injEq, Prod.mk.injEq] at hpieces
    obtain ⟨rfl, hbehind⟩ := h.eq_var_right hf hx hpieces.2
    exact ⟨hone, h.ends hbehind⟩
  · rintro ⟨hone, hends⟩
    obtain ⟨a, before, behind, h, hparens⟩ := hends.exists_around
    rw [h.pieces? hf hc hone, trimParens_behind hx hparens]
    exact ⟨_, rfl⟩

/-! ## Pieces that are formulas -/

/-- The parentheses at the ends of a bracketed formula are around something. -/
lemma cored_bracketed (hf : ∀ y ∈ f.names, IsWord y) : Cored f.bracketed.toList := by
  induction f using connectiveInduction with
  | var x =>
      have hx := (hf x (by simp [names])).edges fun _ => isParen_of_continuesName
      exact ⟨0, _, 0, by simp [bracketed], hx⟩
  | neg a ih =>
      rw [toList_bracketed_neg]
      exact (ih hf).cons (by decide)
  | join d a b iha ihb =>
      rw [names_apply, List.forall_mem_append] at hf
      have hcored := ((iha hf.1).append (ihb hf.2)
        (' ' :: (d.symbol.toList ++ [' ']))).closing.opening
      simpa [toList_bracketed_apply] using hcored

lemma Around.cored (h : Around c a b f before behind) (hf : ∀ y ∈ f.names, IsWord y) :
    Cored (b.bracketed.toList ++ behind) := by
  induction h with
  | here =>
      rw [names_apply, List.forall_mem_append] at hf
      exact (cored_bracketed hf.2).closing
  | neg h ih => exact ih hf
  | @left d f g before behind h ih =>
      rw [names_apply, List.forall_mem_append] at hf
      have hcored := ((ih hf.1).append (cored_bracketed hf.2)
        (' ' :: (d.symbol.toList ++ [' ']))).closing
      simpa using hcored
  | right h ih =>
      rw [names_apply, List.forall_mem_append] at hf
      simpa using (ih hf.2).closing

/-- **A right piece that is a formula is the right operand**, before parentheses only. -/
lemma Around.eq_right (h : Around c a b f before behind) (hf : ∀ y ∈ f.names, IsWord y)
    (hg : ∀ y ∈ g.names, IsWord y)
    (hpiece : trimParens (String.ofList (b.bracketed.toList ++ behind)) = trimParens g.bracketed) :
    b = g ∧ Plain behind := by
  obtain ⟨i, j, hbehind⟩ := (h.cored hf).trimParens_eq
  obtain ⟨k, l, hformula⟩ := (cored_bracketed hg).trimParens_eq
  rw [String.ofList_toList, ← hpiece] at hformula
  obtain ⟨rest, hrest⟩ := h.exists_behind
  generalize (trimParens (String.ofList (b.bracketed.toList ++ behind))).toList = core
    at hbehind hformula
  -- both texts are put between so many parentheses that they are the same
  have hsame : List.replicate k '(' ++ (b.bracketed.toList ++ (behind ++ List.replicate l ')')) =
      List.replicate i '(' ++ (g.bracketed.toList ++ List.replicate j ')') := by
    rw [← List.append_assoc b.bracketed.toList, hbehind, hformula]
    calc _ = (List.replicate k '(' ++ List.replicate i '(') ++
              (core ++ (List.replicate j ')' ++ List.replicate l ')')) := by
            simp only [List.append_assoc]
      _ = (List.replicate i '(' ++ List.replicate k '(') ++
              (core ++ (List.replicate l ')' ++ List.replicate j ')')) := by
            simp only [List.replicate_append_replicate, Nat.add_comm]
      _ = _ := by simp only [List.append_assoc]
  obtain ⟨heq, hparens⟩ := bracketed_between_inj
    (fun y hy => hf y (h.mem_names (by simp [names_apply, hy]))) hg (by simp [Closes, hrest])
    (by cases j <;> simp [Closes, List.replicate_succ]) hsame
  refine ⟨heq, fun d hd => Or.inl ?_⟩
  have hd : d ∈ List.replicate j ')' := hparens ▸ List.mem_append_left _ hd
  rw [List.eq_of_mem_replicate hd]
  rfl

lemma Around.eq_apply (h : Around c a b f before behind) (hbefore : Plain before)
    (hbehind : Plain behind) : f = c.apply a b := by
  cases h with
  | here => rfl
  | neg h => exact absurd (plain_cons.1 hbefore).1 (by decide)
  | left h => exact absurd hbehind not_plain_blank
  | right h => exact absurd (plain_cons.1 hbefore).2 not_plain_blank

/-- **Pieces that are a name and a formula are the operands of the connective at the root.** -/
theorem eq_apply_of_pieces? (hf : f.Worded) (hc : c ≠ .iff) (hx : IsWord x)
    (hg : ∀ y ∈ g.names, IsWord y)
    (hpieces : LabelView.pieces? c.symbol f.bracketed = some (x, trimParens g.bracketed)) :
    f = c.apply (.var x) g := by
  have hone := uses_eq_one_of_pieces? hf hc hpieces
  obtain ⟨a, b, before, behind, h⟩ := exists_around (hone.trans_ne Nat.one_ne_zero)
  rw [h.pieces? hf hc hone, Option.some.injEq, Prod.mk.injEq] at hpieces
  obtain ⟨rfl, hbefore⟩ := h.eq_var_left hf hx hpieces.1
  obtain ⟨rfl, hbehind⟩ := h.eq_right hf.words hg hpieces.2
  exact h.eq_apply hbefore hbehind

end Formula

end AnnealProver
