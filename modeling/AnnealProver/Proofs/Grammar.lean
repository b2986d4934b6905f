import AnnealProver.Formula.Parser
import Mathlib.Data.List.Chain
import Mathlib.Data.List.Nodup
import Mathlib.Data.List.TakeWhile
import Mathlib.Tactic.Lemma
import Mathlib.Tactic.SplitIfs

/-!
# The reader against the grammar

What a grammar accepts is said here without a reader.  A row of tokens is **written** by a text
that spells the tokens in order with blanks wherever one likes, and a row of tokens **derives** a
formula by the rules of the grammar, one nonterminal for each level.  Neither of them scans: a text
may write several rows of tokens, and nothing in the rules says where a name ends.

The reader agrees with both.  Cutting a text into tokens finds the one row among the written ones
that has no two names side by side, and no other row derives anything.  On tokens the fuel is in
the way, so it is shown first that the fuel the reader is given is more than it can use
(`readAt_eq_reads`); what is left is a recursion on levels and tokens, which follows the rules in
one direction (`read_derives`) and is driven by them in the other (`Derives.reads`).
-/

namespace AnnealProver

namespace Text

lemma continuesName_of_opensName {c : Char} (h : opensName c = true) : continuesName c = true := by
  rw [opensName, Bool.or_eq_true] at h
  rw [continuesName, Bool.or_eq_true]
  refine h.imp_left fun hletter => ?_
  rw [isLetter] at hletter
  rw [isAlphanumeric]
  split_ifs at hletter ⊢
  · rw [Char.isAlphanum, hletter, Bool.true_or]
  · rw [hletter, Bool.true_or]

/-- The characters whose code points the ranges hold. -/
def Intervals.chars (ranges : Intervals) : List Char :=
  ranges.flatMap fun range => (List.range' range.1 (range.2 + 1 - range.1)).map Char.ofNat

lemma Intervals.mem_chars {ranges : Intervals} {c : Char} (h : ranges.contains c.toNat = true) :
    c ∈ ranges.chars := by
  rw [Intervals.contains, List.any_eq_true] at h
  obtain ⟨range, hrange, hc⟩ := h
  rw [Bool.and_eq_true, decide_eq_true_eq, decide_eq_true_eq] at hc
  refine List.mem_flatMap.mpr ⟨range, hrange, List.mem_map.mpr ⟨c.toNat, ?_, c.ofNat_toNat⟩⟩
  rw [List.mem_range'_1]
  omega

lemma eq_false_of_any {p : Char → Bool} {cs : List Char} (h : cs.any p = false) :
    ∀ c ∈ cs, p c = false := by
  simpa using h

lemma continuesName_of_isBlank {c : Char} (h : isBlank c = true) : continuesName c = false := by
  -- The blanks are few enough to look each of them up in the tables.
  have hchars : blanks.chars.any continuesName = false := by decide +kernel
  exact eq_false_of_any hchars c (Intervals.mem_chars h)

lemma isBlank_of_continuesName {c : Char} (h : continuesName c = true) : isBlank c = false := by
  by_contra hblank
  rw [Bool.not_eq_false] at hblank
  rw [continuesName_of_isBlank hblank] at h
  cases h

end Text

/-- Not both tokens are names. -/
def Token.Separate (t u : Token) : Prop :=
  ∀ x y, t = .name x → u ≠ .name y

namespace Grammar

/-! ### What the grammar says -/

/-- The characters that spell a token.  A stray character is not spelled by anything. -/
inductive Spells (g : Grammar) : Token → List Char → Prop
  | op (c : Connective) : Spells g (.op c) c.symbol.toList
  | tilde : Spells g .tilde ['~']
  | opening : Spells g .opening ['(']
  | closing : Spells g .closing [')']
  | name {c : Char} {cs : List Char} (hc : g.opensName c = true)
      (hcs : ∀ d ∈ cs, Text.continuesName d = true) : Spells g (.name (c :: cs)) (c :: cs)

/-- The text spells the tokens in order, with any number of blanks before, between and behind
them. -/
inductive Written (g : Grammar) : List Token → List Char → Prop
  | blanks {cs : List Char} (hcs : ∀ c ∈ cs, g.isBlank c = true) : Written g [] cs
  | token {t : Token} {ts : List Token} {blanks word cs : List Char}
      (hblanks : ∀ c ∈ blanks, g.isBlank c = true) (hword : g.Spells t word)
      (hcs : Written g ts cs) : Written g (t :: ts) (blanks ++ (word ++ cs))

/-- The rules of the grammar.  The nonterminals are the lists of levels that may still be used: all
of them for a whole formula, and none for a negation, a formula in parentheses or a name.  For
equivalence, implication, disjunction and conjunction they read

* `Iff ::= Imply ('<->' Imply)*`, `Imply ::= Or ('->' Or)*`, `Or ::= And ('|' And)*` and
  `And ::= Unary ('&' Unary)*`, each by `operand` and then `chain`, which groups to the left;
* `Unary ::= '~' Unary | '(' Iff ')' | Var`. -/
inductive Derives (g : Grammar) : List Connective → List Token → Formula → Prop
  | operand {c : Connective} {tighter : List Connective} {ts : List Token} {f : Formula}
      (hf : Derives g tighter ts f) : Derives g (c :: tighter) ts f
  | chain {c : Connective} {tighter : List Connective} {ts us : List Token} {f h : Formula}
      (hf : Derives g (c :: tighter) ts f) (hh : Derives g tighter us h) :
      Derives g (c :: tighter) (ts ++ .op c :: us) (c.apply f h)
  | tilde {ts : List Token} {f : Formula} (hf : Derives g [] ts f) :
      Derives g [] (.tilde :: ts) (.neg f)
  | parens {ts : List Token} {f : Formula} (hf : Derives g g.levels ts f) :
      Derives g [] (.opening :: (ts ++ [.closing])) f
  | name {cs : List Char} : Derives g [] [.name cs] (.var (String.ofList cs))

/-- The characters are a way of writing the formula at the given levels. -/
def Phrase (g : Grammar) (levels : List Connective) (cs : List Char) (f : Formula) : Prop :=
  ∃ ts, g.Written ts cs ∧ g.Derives levels ts f

/-- The characters with which tokens other than names begin. -/
def signs : List Char :=
  ['~', '(', ')', '&', '|', '-', '<']

/-- No character has two roles in the grammar, and no connective two levels. -/
structure Distinct (g : Grammar) : Prop where
  levels : g.levels.Nodup
  opens_sign : ∀ c ∈ signs, g.opensName c = false
  blank_sign : ∀ c ∈ signs, g.isBlank c = false
  blank_opens : ∀ c, g.opensName c = true → g.isBlank c = false
  continues_blank : ∀ c, g.isBlank c = true → Text.continuesName c = false

lemma full_distinct : full.Distinct where
  levels := by decide
  opens_sign := Text.eq_false_of_any (by decide)
  blank_sign := Text.eq_false_of_any (by decide)
  blank_opens _ h := Text.isBlank_of_continuesName (Text.continuesName_of_opensName h)
  continues_blank _ := Text.continuesName_of_isBlank

lemma continues_sign : ∀ c ∈ signs, Text.continuesName c = false :=
  Text.eq_false_of_any (by decide)

variable {g : Grammar}

/-! ### Tokens -/

lemma Spells.ne_nil {t : Token} {word : List Char} (h : g.Spells t word) : word ≠ [] := by
  cases h with
  | op c => cases c <;> decide
  | tilde | opening | closing | name => simp

/-- A token that is not a name is spelled from one of the signs on. -/
lemma Spells.sign_or_opens {t : Token} {c : Char} {word : List Char} (h : g.Spells t (c :: word)) :
    c ∈ signs ∨ g.opensName c = true ∧ t = .name (c :: word) := by
  generalize hspelled : c :: word = spelled at h
  cases h with
  | op d => left; cases d <;> cases hspelled <;> decide
  | tilde | opening | closing => left; cases hspelled; decide
  | name hc hcs =>
      obtain ⟨rfl, rfl⟩ := List.cons.inj hspelled
      exact .inr ⟨hc, rfl⟩

lemma Distinct.not_blank (hg : g.Distinct) {t : Token} {c : Char} {word : List Char}
    (h : g.Spells t (c :: word)) : g.isBlank c = false := by
  obtain hsign | ⟨hopens, -⟩ := h.sign_or_opens
  · exact hg.blank_sign c hsign
  · exact hg.blank_opens c hopens

/-- The first token of a text is spelled by its characters, unless it is a stray character. -/
lemma lexeme_spells (g : Grammar) (c : Char) (cs : List Char) :
    (∃ d, (lexeme g.opensName c cs).1 = .stray d) ∨
      ∃ word, g.Spells (lexeme g.opensName c cs).1 word ∧
        c :: cs = word ++ (lexeme g.opensName c cs).2 := by
  unfold lexeme
  split
  · exact .inr ⟨_, .tilde, rfl⟩
  · exact .inr ⟨_, .opening, rfl⟩
  · exact .inr ⟨_, .closing, rfl⟩
  · exact .inr ⟨_, .op .conj, rfl⟩
  · exact .inr ⟨_, .op .disj, rfl⟩
  · exact .inr ⟨_, .op .impl, rfl⟩
  · exact .inr ⟨_, .op .iff, rfl⟩
  · split_ifs with hopens
    · refine .inr ⟨_, .name hopens fun _ => List.mem_takeWhile_imp, ?_⟩
      rw [List.cons_append, List.takeWhile_append_dropWhile]
    · exact .inl ⟨_, rfl⟩

lemma lexeme_length (g : Grammar) (c : Char) (cs : List Char) :
    (lexeme g.opensName c cs).2.length ≤ cs.length := by
  unfold lexeme
  split
  all_goals try simp only [List.length_cons]; omega
  split_ifs
  · exact (List.dropWhile_sublist _).length_le
  · exact le_rfl

lemma Distinct.lexeme_name (hg : g.Distinct) {c : Char} (hc : g.opensName c = true)
    (cs : List Char) : lexeme g.opensName c cs =
      (.name (c :: cs.takeWhile Text.continuesName), cs.dropWhile Text.continuesName) := by
  have hsign : c ∉ signs := by
    intro hsign
    rw [hg.opens_sign c hsign] at hc
    cases hc
  unfold lexeme
  split
  case h_8 => rw [if_pos hc]
  all_goals exact absurd (by decide) hsign

/-- A token that is spelled at the front is the one that is found there, as long as a name is not
followed by more of a name. -/
lemma Distinct.lexeme_eq (hg : g.Distinct) {t : Token} {c : Char} {word cs : List Char}
    (h : g.Spells t (c :: word))
    (hcs : ∀ x, t = .name x → ∀ d ∈ cs.head?, Text.continuesName d = false) :
    lexeme g.opensName c (word ++ cs) = (t, cs) := by
  generalize hspelled : c :: word = spelled at h
  cases h with
  | op d => cases d <;> cases hspelled <;> rfl
  | tilde | opening | closing => cases hspelled; rfl
  | name hc hword =>
      obtain ⟨rfl, rfl⟩ := List.cons.inj hspelled
      have hstop : cs.takeWhile Text.continuesName = [] ∧ cs.dropWhile Text.continuesName = cs := by
        cases cs with
        | nil => exact ⟨rfl, rfl⟩
        | cons d ds =>
            have hd := hcs _ rfl d rfl
            rw [List.takeWhile_cons, List.dropWhile_cons, hd]
            exact ⟨rfl, rfl⟩
      rw [hg.lexeme_name hc, List.takeWhile_append_of_pos hword, List.dropWhile_append_of_pos hword,
        hstop.1, hstop.2, List.append_nil]

/-- A text whose tokens do not begin with a name does not go on with a name that stands before
it. -/
lemma Distinct.head_not_continues (hg : g.Distinct) {ts : List Token} {cs : List Char}
    (h : g.Written ts cs) (hts : ∀ x, .name x ∉ ts.head?) :
    ∀ d ∈ cs.head?, Text.continuesName d = false := by
  intro d hd
  cases h with
  | blanks hcs => exact hg.continues_blank d (hcs d (List.mem_of_mem_head? hd))
  | @token t ts blanks word cs hblanks hword hcs =>
      cases blanks with
      | cons b bs =>
          obtain rfl : b = d := Option.some.inj hd
          exact hg.continues_blank b (hblanks b List.mem_cons_self)
      | nil =>
          obtain ⟨c, word, rfl⟩ := List.exists_cons_of_ne_nil hword.ne_nil
          obtain rfl : c = d := Option.some.inj hd
          obtain hsign | ⟨-, rfl⟩ := hword.sign_or_opens
          · exact continues_sign c hsign
          · exact absurd rfl (hts _)

/-- Without stray characters, the tokens of a text are written by it. -/
lemma written_tokensOf (g : Grammar) (total fuel : Nat) (cs : List Char) (hfuel : cs.length ≤ fuel)
    (hstray : ∀ t ∈ tokensOf g.opensName g.isBlank total fuel cs, ∀ d, t.token ≠ .stray d) :
    g.Written ((tokensOf g.opensName g.isBlank total fuel cs).map Placed.token) cs := by
  induction fuel generalizing cs with
  | zero =>
      obtain rfl : cs = [] := List.length_eq_zero_iff.mp (Nat.le_zero.mp hfuel)
      exact .blanks (by simp)
  | succ fuel ih =>
      rw [tokensOf] at hstray ⊢
      have hcut := List.takeWhile_append_dropWhile (p := g.isBlank) (l := cs)
      cases hdrop : cs.dropWhile g.isBlank with
      | nil => exact .blanks (List.dropWhile_eq_nil_iff.mp hdrop)
      | cons c rest =>
          rw [hdrop] at hcut
          rw [hdrop] at hstray
          simp only [List.mem_cons, forall_eq_or_imp] at hstray
          obtain ⟨hfirst, hothers⟩ := hstray
          obtain ⟨d, hd⟩ | ⟨word, hword, hrest⟩ := lexeme_spells g c rest
          · exact absurd hd (hfirst d)
          · have hlength : rest.length < cs.length := by
              rw [← hcut, List.length_append, List.length_cons]
              omega
            have hbehind := ih _ (by have := lexeme_length g c rest; omega) hothers
            have hblanks : ∀ d ∈ cs.takeWhile g.isBlank, g.isBlank d = true :=
              fun _ => List.mem_takeWhile_imp
            have hwritten := Written.token hblanks hword hbehind
            rw [← hrest, hcut] at hwritten
            exact hwritten

/-- A written row of tokens without two names side by side is the one that the text is cut
into. -/
lemma Distinct.tokensOf_eq (hg : g.Distinct) {ts : List Token} {cs : List Char}
    (h : g.Written ts cs) (hts : ts.IsChain Token.Separate) (total fuel : Nat)
    (hfuel : cs.length ≤ fuel) :
    (tokensOf g.opensName g.isBlank total fuel cs).map Placed.token = ts := by
  induction h generalizing fuel with
  | @blanks cs hcs =>
      cases fuel with
      | zero => rfl
      | succ fuel => rw [tokensOf, List.dropWhile_eq_nil_iff.mpr hcs]; rfl
  | @token t ts blanks word cs hblanks hword hcs ih =>
      obtain ⟨c, word, rfl⟩ := List.exists_cons_of_ne_nil hword.ne_nil
      rw [List.isChain_cons] at hts
      simp only [List.length_append, List.length_cons] at hfuel
      cases fuel with
      | zero => omega
      | succ fuel =>
          have hdrop : (blanks ++ (c :: word ++ cs)).dropWhile g.isBlank = c :: (word ++ cs) := by
            rw [List.dropWhile_append_of_pos hblanks, List.cons_append, List.dropWhile_cons,
              hg.not_blank hword]
            rfl
          have hlexeme : lexeme g.opensName c (word ++ cs) = (t, cs) := by
            refine hg.lexeme_eq hword ?_
            rintro x rfl
            exact hg.head_not_continues hcs fun y hy => hts.1 _ hy x y rfl rfl
          rw [tokensOf, hdrop]
          simp only [hlexeme, List.map_cons]
          rw [ih hts.2 fuel (by omega)]

/-! ### Rules -/

lemma Derives.ne_nil {levels : List Connective} {ts : List Token} {f : Formula}
    (h : g.Derives levels ts f) : ts ≠ [] := by
  induction h with
  | operand _ ih => exact ih
  | chain | tilde | parens | name => simp

lemma Derives.not_stray {levels : List Connective} {ts : List Token} {f : Formula}
    (h : g.Derives levels ts f) (d : Char) : .stray d ∉ ts := by
  induction h with
  | operand _ ih => exact ih
  | chain _ _ ihf ihh => simp [ihf, ihh]
  | tilde _ ih => simp [ih]
  | parens _ ih => simp [ih]
  | name => simp

/-- Between two operands there is a connective, so names never stand side by side. -/
lemma Derives.separate {levels : List Connective} {ts : List Token} {f : Formula}
    (h : g.Derives levels ts f) : ts.IsChain Token.Separate := by
  induction h with
  | operand _ ih => exact ih
  | chain _ _ ihf ihh =>
      refine ihf.append (List.isChain_cons.mpr ⟨by simp [Token.Separate], ihh⟩) ?_
      simp [Token.Separate]
  | tilde _ ih => exact List.isChain_cons.mpr ⟨by simp [Token.Separate], ih⟩
  | parens _ ih =>
      refine List.isChain_cons.mpr ⟨by simp [Token.Separate], ?_⟩
      exact ih.append (List.isChain_singleton _) (by simp [Token.Separate])
  | name => exact List.isChain_singleton _

/-! ### Reading follows the rules -/

variable {finish : Nat}

lemma readAt_cons_eq_ok {fuel : Nat} {c : Connective} {tighter : List Connective}
    {ts rest : List Placed} {f : Formula}
    (h : g.readAt finish (fuel + 1) (c :: tighter) ts = .ok (f, rest)) :
    ∃ left between, g.readAt finish fuel tighter ts = .ok (left, between) ∧
      g.readMore finish fuel c tighter left between = .ok (f, rest) := by
  rw [readAt] at h
  split at h
  · cases h
  · next left between hleft => exact ⟨left, between, hleft, h⟩

lemma readAt_nil_eq_ok {fuel : Nat} {ts rest : List Placed} {f : Formula}
    (h : g.readAt finish (fuel + 1) [] ts = .ok (f, rest)) :
    (∃ position behind operand, ts = ⟨.tilde, position⟩ :: behind ∧
      g.readAt finish fuel [] behind = .ok (operand, rest) ∧ f = .neg operand) ∨
    (∃ position close behind, ts = ⟨.opening, position⟩ :: behind ∧
      g.readAt finish fuel g.levels behind = .ok (f, ⟨.closing, close⟩ :: rest)) ∨
    ∃ position cs, ts = ⟨.name cs, position⟩ :: rest ∧ f = .var (String.ofList cs) := by
  unfold readAt at h
  split at h
  · split at h
    · cases h
    · next hoperand => cases h; exact .inl ⟨_, _, _, rfl, hoperand, rfl⟩
  · split at h
    · cases h
    · next hinner => cases h; exact .inr (.inl ⟨_, _, _, rfl, hinner⟩)
    · cases h
  · cases h; exact .inr (.inr ⟨_, _, rfl, rfl⟩)
  · cases h

lemma readMore_eq_ok {fuel : Nat} {c : Connective} {tighter : List Connective} {left f : Formula}
    {ts rest : List Placed} (h : g.readMore finish (fuel + 1) c tighter left ts = .ok (f, rest)) :
    (f = left ∧ rest = ts) ∨
    ∃ position behind right between, ts = ⟨.op c, position⟩ :: behind ∧
      g.readAt finish fuel tighter behind = .ok (right, between) ∧
      g.readMore finish fuel c tighter (c.apply left right) between = .ok (f, rest) := by
  unfold readMore at h
  split at h
  · split_ifs at h with hc
    · subst hc
      split at h
      · cases h
      · next hright => exact .inr ⟨_, _, _, _, rfl, hright, h⟩
    · cases h; exact .inl ⟨rfl, rfl⟩
  · cases h; exact .inl ⟨rfl, rfl⟩

/-- What the reader has passed derives the formula it returns.  Going on at a level adds to
whatever derives the operand it starts from. -/
lemma read_derives (fuel : Nat) :
    (∀ {levels ts f rest}, g.readAt finish fuel levels ts = .ok (f, rest) →
      ∃ front, ts = front ++ rest ∧ g.Derives levels (front.map Placed.token) f) ∧
    (∀ {c tighter left ts f rest}, g.readMore finish fuel c tighter left ts = .ok (f, rest) →
      ∃ front, ts = front ++ rest ∧ ∀ us, g.Derives (c :: tighter) us left →
        g.Derives (c :: tighter) (us ++ front.map Placed.token) f) := by
  induction fuel with
  | zero => exact ⟨by rintro (_ | _) _ _ _ ⟨⟩, by rintro _ _ _ _ _ _ ⟨⟩⟩
  | succ fuel ih =>
      obtain ⟨ihAt, ihMore⟩ := ih
      refine ⟨fun {levels ts f rest} h => ?_, fun {c tighter left ts f rest} h => ?_⟩
      · cases levels with
        | cons c tighter =>
            obtain ⟨left, between, hleft, hrest⟩ := readAt_cons_eq_ok h
            obtain ⟨front, rfl, hfront⟩ := ihAt hleft
            obtain ⟨more, rfl, hmore⟩ := ihMore hrest
            refine ⟨front ++ more, by rw [List.append_assoc], ?_⟩
            rw [List.map_append]
            exact hmore _ hfront.operand
        | nil =>
            obtain ⟨position, behind, operand, rfl, hoperand, rfl⟩ |
              ⟨position, close, behind, rfl, hinner⟩ | ⟨position, cs, rfl, rfl⟩ :=
              readAt_nil_eq_ok h
            · obtain ⟨front, rfl, hfront⟩ := ihAt hoperand
              exact ⟨⟨.tilde, position⟩ :: front, rfl, hfront.tilde⟩
            · obtain ⟨front, rfl, hfront⟩ := ihAt hinner
              refine ⟨⟨.opening, position⟩ :: (front ++ [⟨.closing, close⟩]), by simp, ?_⟩
              simpa using hfront.parens
            · exact ⟨[⟨.name cs, position⟩], rfl, .name⟩
      · obtain ⟨rfl, rfl⟩ | ⟨position, behind, right, between, rfl, hright, hrest⟩ :=
          readMore_eq_ok h
        · exact ⟨[], rfl, by simp⟩
        · obtain ⟨front, rfl, hfront⟩ := ihAt hright
          obtain ⟨more, rfl, hmore⟩ := ihMore hrest
          refine ⟨⟨.op c, position⟩ :: (front ++ more), by simp, fun us hus => ?_⟩
          simpa using hmore _ (hus.chain hfront)

lemma readAt_length_lt {fuel : Nat} {levels : List Connective} {ts rest : List Placed}
    {f : Formula} (h : g.readAt finish fuel levels ts = .ok (f, rest)) :
    rest.length < ts.length := by
  obtain ⟨front, rfl, hfront⟩ := (read_derives fuel).1 h
  have hne : front ≠ [] := by simpa using hfront.ne_nil
  have := List.length_pos_iff.mpr hne
  rw [List.length_append]
  omega

/-! ### The fuel is never used up -/

/-- Fuel for reading at the given levels: one for each level, and for each token enough to pass
all levels again. -/
def enough (g : Grammar) (levels : List Connective) (ts : List Placed) : Nat :=
  (g.levels.length + 2) * ts.length + levels.length + 1

/-- Behind a token one unit less is enough, whatever the levels. -/
lemma enough_behind {levels levels' : List Connective} {ts rest : List Placed} {fuel : Nat}
    (hlevels : levels.length ≤ g.levels.length) (hrest : rest.length < ts.length)
    (hfuel : g.enough levels' ts ≤ fuel + 1) : g.enough levels rest ≤ fuel := by
  have hmul := Nat.mul_le_mul_left (g.levels.length + 2) (Nat.succ_le_of_lt hrest)
  rw [Nat.mul_succ] at hmul
  rw [enough] at hfuel ⊢
  omega

/-- One more unit changes nothing once there is enough fuel. -/
lemma read_succ (fuel : Nat) :
    (∀ {levels ts}, levels.length ≤ g.levels.length → g.enough levels ts ≤ fuel →
      g.readAt finish (fuel + 1) levels ts = g.readAt finish fuel levels ts) ∧
    (∀ {c tighter left ts}, tighter.length ≤ g.levels.length → g.enough [] ts ≤ fuel →
      g.readMore finish (fuel + 1) c tighter left ts =
        g.readMore finish fuel c tighter left ts) := by
  induction fuel with
  | zero => exact ⟨by simp [enough], by simp [enough]⟩
  | succ fuel ih =>
      obtain ⟨ihAt, ihMore⟩ := ih
      refine ⟨fun {levels ts} hlevels hfuel => ?_, fun {c tighter left ts} htighter hfuel => ?_⟩
      · cases levels with
        | cons c tighter =>
            have htighter : tighter.length ≤ g.levels.length := Nat.le_of_succ_le hlevels
            have hsame : g.enough tighter ts ≤ fuel := by
              rw [enough, List.length_cons] at hfuel
              rw [enough]
              omega
            rw [readAt, readAt, ihAt htighter hsame]
            split
            · rfl
            · next hleft =>
                exact ihMore htighter (enough_behind (Nat.zero_le _) (readAt_length_lt hleft) hfuel)
        | nil =>
            have hbehind : ∀ {levels t rest}, levels.length ≤ g.levels.length → ts = t :: rest →
                g.readAt finish (fuel + 1) levels rest = g.readAt finish fuel levels rest :=
              fun hlevels hts => ihAt hlevels (enough_behind hlevels (by simp [hts]) hfuel)
            rw [readAt.eq_def, readAt.eq_def g finish (fuel + 1)]
            simp only
            split
            · rw [hbehind (Nat.zero_le _) rfl]
            · rw [hbehind le_rfl rfl]
            · rfl
            · rfl
      · rw [readMore.eq_def, readMore.eq_def g finish (fuel + 1)]
        simp only
        split
        · split_ifs
          · rw [ihAt htighter (enough_behind htighter (by simp) hfuel)]
            split
            · rfl
            · next hright =>
                have hlength := readAt_length_lt hright
                refine ihMore htighter (enough_behind (Nat.zero_le _) ?_ hfuel)
                rw [List.length_cons]
                omega
          · rfl
        · rfl

/-- Reading without a bound. -/
def reads (g : Grammar) (finish : Nat) (levels : List Connective) (ts : List Placed) :
    Except ParseError (Formula × List Placed) :=
  g.readAt finish (g.enough levels ts) levels ts

/-- Going on at the first of the levels without a bound; with no level left there is nothing to go
on with. -/
def goesOn (g : Grammar) (finish : Nat) : List Connective → Formula → List Placed →
    Except ParseError (Formula × List Placed)
  | [], f, ts => .ok (f, ts)
  | c :: tighter, f, ts => g.readMore finish (g.enough [] ts) c tighter f ts

lemma readAt_eq_reads {levels : List Connective} {ts : List Placed} {fuel : Nat}
    (hlevels : levels.length ≤ g.levels.length) (hfuel : g.enough levels ts ≤ fuel) :
    g.readAt finish fuel levels ts = g.reads finish levels ts := by
  induction fuel, hfuel using Nat.le_induction with
  | base => rfl
  | succ fuel hfuel ih => rw [(read_succ fuel).1 hlevels hfuel, ih]

lemma readMore_eq_goesOn {c : Connective} {tighter : List Connective} {left : Formula}
    {ts : List Placed} {fuel : Nat} (htighter : tighter.length ≤ g.levels.length)
    (hfuel : g.enough [] ts ≤ fuel) :
    g.readMore finish fuel c tighter left ts = g.goesOn finish (c :: tighter) left ts := by
  induction fuel, hfuel using Nat.le_induction with
  | base => rfl
  | succ fuel hfuel ih => rw [(read_succ fuel).2 htighter hfuel, ih]

/-! ### The rules drive the reading -/

lemma reads_cons {c : Connective} {tighter : List Connective} {ts rest : List Placed} {f : Formula}
    (hlevels : (c :: tighter).length ≤ g.levels.length)
    (h : g.reads finish tighter ts = .ok (f, rest)) :
    g.reads finish (c :: tighter) ts = g.goesOn finish (c :: tighter) f rest := by
  have htighter : tighter.length ≤ g.levels.length := Nat.le_of_succ_le hlevels
  have hfuel : g.enough (c :: tighter) ts = g.enough tighter ts + 1 := rfl
  rw [reads] at h
  rw [reads, hfuel, readAt, h]
  exact readMore_eq_goesOn htighter (enough_behind (Nat.zero_le _) (readAt_length_lt h) hfuel.le)

lemma reads_tilde {position : Nat} {ts rest : List Placed} {f : Formula}
    (h : g.reads finish [] ts = .ok (f, rest)) :
    g.reads finish [] (⟨.tilde, position⟩ :: ts) = .ok (.neg f, rest) := by
  have hnone : ([] : List Connective).length ≤ g.levels.length := Nat.zero_le _
  have hfuel := enough_behind hnone (Nat.lt_succ_self _)
    (Nat.le_refl (g.enough [] (⟨.tilde, position⟩ :: ts)))
  rw [reads, enough, readAt, readAt_eq_reads hnone hfuel, h]

lemma reads_parens {position close : Nat} {ts rest : List Placed} {f : Formula}
    (h : g.reads finish g.levels ts = .ok (f, ⟨.closing, close⟩ :: rest)) :
    g.reads finish [] (⟨.opening, position⟩ :: ts) = .ok (f, rest) := by
  have hfuel := enough_behind le_rfl (Nat.lt_succ_self _)
    (Nat.le_refl (g.enough [] (⟨.opening, position⟩ :: ts)))
  rw [reads, enough, readAt, readAt_eq_reads le_rfl hfuel, h]

lemma goesOn_op {c : Connective} {tighter : List Connective} {position : Nat}
    {ts rest : List Placed} {left right : Formula} (htighter : tighter.length ≤ g.levels.length)
    (h : g.reads finish tighter ts = .ok (right, rest)) :
    g.goesOn finish (c :: tighter) left (⟨.op c, position⟩ :: ts) =
      g.goesOn finish (c :: tighter) (c.apply left right) rest := by
  have hfuel := enough_behind htighter (Nat.lt_succ_self _)
    (Nat.le_refl (g.enough [] (⟨.op c, position⟩ :: ts)))
  have hlength := readAt_length_lt h
  rw [goesOn, enough, readMore, if_pos rfl, readAt_eq_reads htighter hfuel, h]
  refine readMore_eq_goesOn htighter (enough_behind (Nat.zero_le _) ?_ le_rfl)
  rw [List.length_cons]
  omega

/-- None of the connectives comes next. -/
def Stops (levels : List Connective) (ts : List Placed) : Prop :=
  ∀ c ∈ levels, ∀ t ∈ ts.head?, t.token ≠ .op c

lemma Stops.tail {levels : List Connective} {ts : List Placed} (h : Stops levels ts) :
    Stops levels.tail ts :=
  fun c hc => h c (List.mem_of_mem_tail hc)

lemma goesOn_stops {levels : List Connective} {ts : List Placed} {f : Formula}
    (h : Stops levels ts) : g.goesOn finish levels f ts = .ok (f, ts) := by
  cases levels with
  | nil => rfl
  | cons c tighter =>
      rw [goesOn, enough, readMore.eq_def]
      simp only
      split
      · next d position rest =>
          have hd : d ≠ c := by
            rintro rfl
            exact h d List.mem_cons_self _ rfl rfl
          rw [if_neg hd]
      · rfl

/-- **A derivation tells the reader what to do.**  Having passed the tokens of a derivation, it
goes on with the formula at the loosest of the levels, whatever follows that no tighter level
takes. -/
lemma Derives.reads {levels : List Connective} {us : List Token} {f : Formula}
    (h : g.Derives levels us f) (hg : g.levels.Nodup) (hnodup : levels.Nodup)
    (hlevels : levels.length ≤ g.levels.length) {ts rest : List Placed}
    (hts : ts.map Placed.token = us) (hrest : Stops levels.tail rest) :
    g.reads finish levels (ts ++ rest) = g.goesOn finish levels f rest := by
  induction h generalizing ts rest with
  | @operand c tighter us f _ ih =>
      have htighter : tighter.length ≤ g.levels.length := Nat.le_of_succ_le hlevels
      have hstops : Stops tighter rest := hrest
      refine reads_cons hlevels ?_
      rw [ih hnodup.of_cons htighter hts hstops.tail, goesOn_stops hstops]
  | @chain c tighter us vs f h _ _ ihf ihh =>
      have htighter : tighter.length ≤ g.levels.length := Nat.le_of_succ_le hlevels
      have hstops : Stops tighter rest := hrest
      obtain ⟨front, behind, rfl, hfront, hbehind⟩ := List.map_eq_append_iff.mp hts
      obtain ⟨⟨_, position⟩, back, rfl, rfl, hback⟩ := List.map_eq_cons_iff.mp hbehind
      -- The connective of the chain stops all tighter levels, since it is none of them.
      have hop : Stops tighter (⟨.op c, position⟩ :: (back ++ rest)) := by
        intro d hd t ht
        obtain rfl := Option.some.inj ht
        intro hcd
        cases hcd
        exact (List.nodup_cons.mp hnodup).1 hd
      have hright : g.reads finish tighter (back ++ rest) = .ok (h, rest) := by
        rw [ihh hnodup.of_cons htighter hback hstops.tail, goesOn_stops hstops]
      rw [List.append_assoc, List.cons_append, ihf hnodup hlevels hfront hop,
        goesOn_op htighter hright]
  | @tilde us f _ ih =>
      obtain ⟨⟨_, position⟩, back, rfl, rfl, hback⟩ := List.map_eq_cons_iff.mp hts
      exact reads_tilde (ih List.nodup_nil hlevels hback hrest)
  | @parens us f _ ih =>
      obtain ⟨⟨_, position⟩, behind, rfl, rfl, hbehind⟩ := List.map_eq_cons_iff.mp hts
      obtain ⟨inner, back, rfl, hinner, hback⟩ := List.map_eq_append_iff.mp hbehind
      obtain ⟨⟨_, close⟩, rfl, rfl⟩ := List.map_eq_singleton_iff.mp hback
      have hclosing : Stops g.levels (⟨.closing, close⟩ :: rest) := by
        intro d _ t ht
        obtain rfl := Option.some.inj ht
        nofun
      have hreads : g.reads finish g.levels ((inner ++ [⟨.closing, close⟩]) ++ rest) =
          .ok (f, ⟨.closing, close⟩ :: rest) := by
        rw [List.append_assoc, List.singleton_append, ih hg le_rfl hinner hclosing.tail,
          goesOn_stops hclosing]
      exact reads_parens hreads
  | @name cs =>
      obtain ⟨⟨_, position⟩, rfl, rfl⟩ := List.map_eq_singleton_iff.mp hts
      rfl

/-- The fuel that a whole text is read with is enough. -/
lemma enough_levels (ts : List Placed) :
    g.enough g.levels ts ≤ (g.levels.length + 2) * (ts.length + 1) := by
  rw [enough, Nat.mul_succ]
  omega

lemma readAt_levels_add (finish extra : Nat) (ts : List Placed) :
    g.readAt finish ((g.levels.length + 2) * (ts.length + 1) + extra) g.levels ts =
      g.readAt finish ((g.levels.length + 2) * (ts.length + 1)) g.levels ts := by
  have henough := enough_levels (g := g) ts
  rw [readAt_eq_reads le_rfl henough, readAt_eq_reads le_rfl (Nat.le_add_right_of_le henough)]

/-- Reading accepts exactly what the grammar says, with the formula it says. -/
lemma Distinct.read_eq_ok_iff (hg : g.Distinct) {cs : List Char} {f : Formula} :
    g.read cs = .ok f ↔ g.Phrase g.levels cs f := by
  rw [read]
  generalize hts : tokens g.opensName g.isBlank cs = ts
  constructor
  · intro h
    split at h
    · cases h
    · next hread =>
        cases h
        obtain ⟨front, hfront, hderives⟩ := (read_derives _).1 hread
        obtain rfl : ts = front := by rw [hfront, List.append_nil]
        refine ⟨ts.map Placed.token, ?_, hderives⟩
        rw [tokens] at hts
        rw [← hts]
        refine written_tokensOf g cs.length cs.length cs le_rfl fun t ht d hd => ?_
        rw [hts] at ht
        exact hderives.not_stray d (hd ▸ List.mem_map_of_mem ht)
    · cases h
  · rintro ⟨us, hwritten, hderives⟩
    have htokens : ts.map Placed.token = us := by
      rw [← hts]
      exact hg.tokensOf_eq hwritten hderives.separate cs.length cs.length le_rfl
    have hnone : Stops g.levels [] := by simp [Stops]
    have hreads : g.reads cs.length g.levels (ts ++ []) = g.goesOn cs.length g.levels f [] :=
      hderives.reads hg.levels hg.levels le_rfl htokens hnone.tail
    rw [List.append_nil, goesOn_stops hnone] at hreads
    rw [readAt_eq_reads le_rfl (enough_levels ts), hreads]

/-- A text of blanks only writes no formula. -/
lemma Distinct.not_all_blank (hg : g.Distinct) {cs : List Char} {f : Formula}
    (h : g.Phrase g.levels cs f) : cs.all g.isBlank = false := by
  obtain ⟨ts, hwritten, hderives⟩ := h
  cases hwritten with
  | blanks => exact absurd rfl hderives.ne_nil
  | @token t ts blanks word cs hblanks hword hcs =>
      obtain ⟨c, word, rfl⟩ := List.exists_cons_of_ne_nil hword.ne_nil
      rw [List.all_eq_false]
      exact ⟨c, by simp, by rw [hg.not_blank hword]; decide⟩

end Grammar

open Grammar

lemma Dialect.read_full_eq_ok_iff {text : String} {f : Formula} :
    Dialect.full.read text = .ok f ↔ Grammar.full.Phrase Grammar.full.levels text.toList f := by
  rw [Dialect.read]
  split_ifs with hblank
  · refine ⟨nofun, fun hphrase => ?_⟩
    rw [Text.blank] at hblank
    have hnot : text.toList.all Text.isBlank = false := full_distinct.not_all_blank hphrase
    rw [hblank] at hnot
    cases hnot
  · exact full_distinct.read_eq_ok_iff

lemma Formula.parse_full_eq_ok_iff {text : String} {f : Formula} :
    Formula.parse .full text = .ok f ↔ Grammar.full.Phrase Grammar.full.levels text.toList f := by
  rw [← Dialect.read_full_eq_ok_iff, Formula.parse]
  cases Dialect.full.read text <;> simp [Except.mapError]

/-- **The reader accepts exactly the grammar.**  A text is read as a formula exactly when it spells
tokens that derive the formula, and every other text is refused with its cause.  No text is refused
for want of fuel: with any more of it the reading of the tokens has the same outcome. -/
theorem parse_accepts_grammar (text : String) :
    (∀ f, Formula.parse .full text = .ok f ↔
      ∃ ts, Grammar.full.Written ts text.toList ∧
        Grammar.full.Derives [.iff, .impl, .disj, .conj] ts f) ∧
    ((∀ f ts, Grammar.full.Written ts text.toList →
        ¬ Grammar.full.Derives [.iff, .impl, .disj, .conj] ts f) →
      ∃ cause, Formula.parse .full text = .error ⟨.full, text, cause⟩) ∧
    ∀ (finish extra : Nat) (ts : List Placed),
      Grammar.full.readAt finish (6 * (ts.length + 1) + extra) [.iff, .impl, .disj, .conj] ts =
        Grammar.full.readAt finish (6 * (ts.length + 1)) [.iff, .impl, .disj, .conj] ts := by
  refine ⟨fun f => Formula.parse_full_eq_ok_iff, fun hnone => ?_, readAt_levels_add⟩
  cases hread : Dialect.full.read text with
  | ok f =>
      obtain ⟨ts, hwritten, hderives⟩ := Dialect.read_full_eq_ok_iff.mp hread
      exact absurd hderives (hnone f ts hwritten)
  | error cause => exact ⟨cause, by rw [Formula.parse, hread]; rfl⟩

end AnnealProver
