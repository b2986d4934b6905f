import AnnealProver.Proofs.CutFormulas
import AnnealProver.Proofs.Decoding
import AnnealProver.Proofs.GroundStates

/-!
# Inferences that an explanation draws

The explanation of a sample names the inferences that it sees among the axioms: uses of modus
ponens, of modus tollens, and of conjunctions.  It sees them on the printed axioms, by cutting a
text at its arrow or its ampersand wherever that stands in the formula.

**What the lines rest on.**  `LabelView.Grounded` has one case for each kind of conclusion, and
every line of an explanation is one of them or draws no conclusion (`LabelView.grounded_of_mem`).

**Where the lines are right.**  With modus ponens and modus tollens the second axiom is compared
with a piece of the first one, and this is enough: such pieces are the operands of an implication at
the root, and the conclusion follows.  For conjunctions nothing is compared.  A conjunction below
the root is taken for one at the root, and a symbol that stands at the outer end of the formula is
declared true (`Formula.Misread`).
-/

namespace AnnealProver

open Text

/-! ## Reading a text from either end -/

/-- What stands before the first occurrence of a character is determined. -/
lemma Text.eq_of_append_cons_eq {c : Char} {as bs cs ds : List Char} (has : c ∉ as) (hbs : c ∉ bs)
    (h : as ++ c :: cs = bs ++ c :: ds) : as = bs := by
  have hfront : ∀ {es fs : List Char}, c ∉ es → (es ++ c :: fs).takeWhile (· != c) = es := by
    intro es fs hes
    have hother : ∀ d ∈ es, (d != c) = true := by
      intro d hd
      rw [bne_iff_ne]
      rintro rfl
      exact hes hd
    rw [List.takeWhile_append_of_pos hother, List.takeWhile_cons_of_neg (by simp), List.append_nil]
  rw [← hfront has, h, hfront hbs]

/-- What stands behind the last occurrence of a character is determined. -/
lemma Text.eq_of_append_cons_eq_right {c : Char} {as bs cs ds : List Char} (hcs : c ∉ cs)
    (hds : c ∉ ds) (h : as ++ c :: cs = bs ++ c :: ds) : cs = ds := by
  have hback := congrArg List.reverse h
  simp only [List.reverse_append, List.reverse_cons, List.append_assoc, List.singleton_append]
    at hback
  exact List.reverse_injective (eq_of_append_cons_eq (List.mem_reverse.not.2 hcs)
    (List.mem_reverse.not.2 hds) hback)

lemma Text.mem_of_mem_trimWhere {p : Char → Bool} {c : Char} {cs : List Char}
    (h : c ∈ (trimWhere p (String.ofList cs)).toList) : c ∈ cs := by
  rw [trimWhere_ofList, String.toList_ofList] at h
  exact (List.dropWhile_suffix p).mem ((List.rdropWhile_prefix p _).mem h)

lemma Text.IsWord.not_mem_equals {word : String} (h : IsWord word) : '=' ∉ word.toList :=
  fun hin => absurd (h.continues _ hin) (by decide)

namespace LabelView

variable {texts : List String} {line : String} {s : Sample} {x y l r : String}

/-! ## Conclusions -/

/-- The conclusion of a modus ponens. -/
def ponensLine (x : String) : String :=
  s!"  根据 Modus Ponens 规则，得 {x}=真"

/-- The conclusion of a modus tollens. -/
def tollensLine (x : String) : String :=
  s!"    因此 {x}=假，即 ~{x}=真"

/-- The two conclusions from a conjunction. -/
def conjunctionLine (left right : String) : String :=
  s!"  根据合取消除规则，得 {left}=真 且 {right}=真"

/-- Whether a conclusion is drawn in the line. -/
def concludes (line : String) : Bool :=
  begins "  根据 Modus Ponens 规则，得 " line || begins "    因此 " line ||
    begins "  根据合取消除规则，得 " line

/-- The symbol is declared true because of a conjunction. -/
def NamesConjunct (lines : List String) (x : String) : Prop :=
  ∃ text, conjunctionLine x text ∈ lines ∨ conjunctionLine text x ∈ lines

lemma toList_ponensLine : (ponensLine x).toList =
    "  根据 Modus Ponens 规则，得 ".toList ++ (x.toList ++ "=真".toList) := by
  have htext : ponensLine x = "  根据 Modus Ponens 规则，得 " ++ x ++ "=真" := rfl
  simp only [htext, String.toList_append, List.append_assoc]

lemma toList_tollensLine : (tollensLine x).toList =
    "    因此 ".toList ++ (x.toList ++ ("=假，即 ~".toList ++ (x.toList ++ "=真".toList))) := by
  have htext : tollensLine x = "    因此 " ++ x ++ "=假，即 ~" ++ x ++ "=真" := rfl
  simp only [htext, String.toList_append, List.append_assoc]

lemma toList_conjunctionLine : (conjunctionLine l r).toList =
    "  根据合取消除规则，得 ".toList ++
      (l.toList ++ ("=真 且 ".toList ++ (r.toList ++ "=真".toList))) := by
  have htext : conjunctionLine l r = "  根据合取消除规则，得 " ++ l ++ "=真 且 " ++ r ++ "=真" := rfl
  simp only [htext, String.toList_append, List.append_assoc]

lemma equals_toList : "=真 且 ".toList = '=' :: "真 且 ".toList := rfl

lemma ponensLine_inj (h : ponensLine x = ponensLine y) : x = y := by
  have htext := congrArg String.toList h
  rw [toList_ponensLine, toList_ponensLine, List.append_cancel_left_eq,
    List.append_cancel_right_eq] at htext
  exact String.toList_inj.1 htext

lemma tollensLine_inj (h : tollensLine x = tollensLine y) : x = y := by
  have htext := congrArg String.toList h
  rw [toList_tollensLine, toList_tollensLine, List.append_cancel_left_eq] at htext
  have hlength := congrArg List.length htext
  simp only [List.length_append] at hlength
  exact String.toList_inj.1 (List.append_inj htext (by omega)).1

/-- The left conjunct is read off up to the first equals sign. -/
lemma conjunctionLine_inj_left {l' r' : String} (hl : '=' ∉ l.toList) (hl' : '=' ∉ l'.toList)
    (h : conjunctionLine l r = conjunctionLine l' r') : l = l' := by
  have htext := congrArg String.toList h
  rw [toList_conjunctionLine, toList_conjunctionLine, List.append_cancel_left_eq,
    equals_toList] at htext
  exact String.toList_inj.1 (eq_of_append_cons_eq hl hl' htext)

/-- The right conjunct is read off from the end, up to the next equals sign. -/
lemma conjunctionLine_inj_right {l' r' : String} (hr : '=' ∉ r.toList) (hr' : '=' ∉ r'.toList)
    (h : conjunctionLine l r = conjunctionLine l' r') : r = r' := by
  have htext := congrArg String.toList h
  rw [toList_conjunctionLine, toList_conjunctionLine, List.append_cancel_left_eq] at htext
  simp only [← List.append_assoc, List.append_cancel_right_eq] at htext
  rw [List.append_assoc, List.append_assoc, equals_toList] at htext
  have hsame := eq_of_append_cons_eq_right (by simpa using hr) (by simpa using hr') htext
  exact String.toList_inj.1 (List.append_cancel_left hsame)

lemma concludes_ponensLine : concludes (ponensLine x) = true := by
  simp [concludes, begins, toList_ponensLine, List.isPrefixOf]

lemma concludes_tollensLine : concludes (tollensLine x) = true := by
  simp [concludes, begins, toList_tollensLine, List.isPrefixOf]

lemma concludes_conjunctionLine : concludes (conjunctionLine l r) = true := by
  simp [concludes, begins, toList_conjunctionLine, List.isPrefixOf]

/-- A conclusion is indented. -/
lemma concludes_of_head? {c : Char} (h : line.toList.head? = some c) (hc : ' ' ≠ c) :
    concludes line = false := by
  obtain ⟨rest, hrest⟩ := List.head?_eq_some_iff.1 h
  simp [concludes, begins, hrest, List.isPrefixOf, hc]

/-- The three kinds of conclusions are told apart. -/
lemma conclusions_apart : ponensLine x ≠ tollensLine y ∧ ponensLine x ≠ conjunctionLine l r ∧
    tollensLine y ≠ conjunctionLine l r := by
  refine ⟨fun h => ?_, fun h => ?_, fun h => ?_⟩ <;> have htext := congrArg String.toList h
  · simp [toList_ponensLine, toList_tollensLine] at htext
  · simp [toList_ponensLine, toList_conjunctionLine] at htext
  · simp [toList_tollensLine, toList_conjunctionLine] at htext

/-! ## What the lines rest on -/

/-- What a line of an explanation rests on. -/
inductive Grounded (texts : List String) : String → Prop
  | ponens {a b right : String} (ha : a ∈ texts) (hsymbol : isSymbol a = true) (hb : b ∈ texts)
      (h : pieces? "->" b = some (a, right)) : Grounded texts (ponensLine right)
  | tollens {a b left : String} (ha : a ∈ texts) (hb : b ∈ texts) (htilde : begins "~" b = true)
      (h : pieces? "->" a = some (left, trimParens (trim (afterFirst 1 b)))) :
      Grounded texts (tollensLine left)
  | conjunction {a left right : String} (ha : a ∈ texts)
      (h : pieces? "&" a = some (left, right)) : Grounded texts (conjunctionLine left right)
  | remark {line : String} (h : concludes line = false) : Grounded texts line

lemma isSymbol_of_contains (h : (s.select .symbols).contains x = true) : isSymbol x = true := by
  obtain ⟨entry, hentry, hname⟩ := List.any_eq_true.1 h
  obtain ⟨-, hsymbol⟩ := List.mem_filter.1 hentry
  rwa [beq_iff_eq.1 hname] at hsymbol

lemma grounded_of_mem_ponensLines
    (h : line ∈ ponensLines texts.zipIdx (s.select .symbols)) : Grounded texts line := by
  obtain ⟨⟨a, i⟩, ha, hline⟩ := List.mem_flatMap.1 h
  dsimp only at hline
  split_ifs at hline with hsymbol
  · obtain ⟨⟨b, j⟩, hb, hline⟩ := List.mem_flatMap.1 hline
    dsimp only at hline
    split at hline
    · next left right hpieces =>
        split_ifs at hline with hleft
        · obtain rfl := beq_iff_eq.1 hleft
          have hcontains := (Bool.and_eq_true_iff.1 hsymbol).1
          rcases List.mem_pair.1 hline with rfl | rfl
          · exact .remark (concludes_of_head? (c := '由') (by simp [toString]) (by decide))
          · exact .ponens (List.fst_mem_of_mem_zipIdx ha) (isSymbol_of_contains hcontains)
              (List.fst_mem_of_mem_zipIdx hb) hpieces
        · cases hline
    · cases hline
  · cases hline

lemma grounded_of_mem_tollensLines (h : line ∈ tollensLines texts.zipIdx) :
    Grounded texts line := by
  obtain ⟨⟨a, i⟩, ha, hline⟩ := List.mem_flatMap.1 h
  dsimp only at hline
  split at hline
  · next left right hpieces =>
      obtain ⟨⟨b, j⟩, hb, hline⟩ := List.mem_flatMap.1 hline
      dsimp only at hline
      split_ifs at hline with hdenied
      · obtain ⟨htilde, hright⟩ := Bool.and_eq_true_iff.1 hdenied
        obtain rfl := beq_iff_eq.1 hright
        simp only [List.mem_cons, List.not_mem_nil, or_false] at hline
        rcases hline with rfl | rfl | rfl | rfl | rfl
        · exact .remark (concludes_of_head? (c := '由') (by simp [toString]) (by decide))
        · exact .remark (by simp [concludes, begins, List.isPrefixOf])
        · exact .remark (by simp [concludes, begins, toString, List.isPrefixOf])
        · exact .remark (by simp [concludes, begins, toString, List.isPrefixOf])
        · exact .tollens (List.fst_mem_of_mem_zipIdx ha) (List.fst_mem_of_mem_zipIdx hb) htilde
            hpieces
      · cases hline
  · cases hline

lemma grounded_of_mem_conjunctionLines (h : line ∈ conjunctionLines texts.zipIdx) :
    Grounded texts line := by
  obtain ⟨⟨a, i⟩, ha, hline⟩ := List.mem_flatMap.1 h
  dsimp only at hline
  split at hline
  · next left right hpieces =>
      rcases List.mem_pair.1 hline with rfl | rfl
      · exact .remark (concludes_of_head? (c := '由') (by simp [toString]) (by decide))
      · exact .conjunction (List.fst_mem_of_mem_zipIdx ha) hpieces
  · cases hline

lemma concludes_of_mem_controlLines (h : line ∈ controlLines s) : concludes line = false := by
  obtain ⟨⟨n, v⟩, -, rfl⟩ := List.mem_map.1 h
  exact concludes_of_head? (c := '（') (by simp [toString]) (by decide)

/-- **Every line of an explanation rests on the axioms, or draws no conclusion.** -/
lemma grounded_of_mem (h : line ∈ inferenceLines texts s) : Grounded texts line := by
  rw [inferenceLines] at h
  split_ifs at h with hempty
  · rw [List.mem_singleton.1 h]
    exact .remark (concludes_of_head? (c := '（') (by simp) (by decide))
  · rcases List.mem_append.1 h with h | h
    · rcases List.mem_append.1 h with h | h
      · rcases List.mem_append.1 h with h | h
        · exact grounded_of_mem_ponensLines h
        · exact grounded_of_mem_tollensLines h
      · exact grounded_of_mem_conjunctionLines h
    · exact .remark (concludes_of_mem_controlLines h)

/-- The conclusions from a conjunction are drawn wherever a text is cut in two at an ampersand. -/
lemma conjunctionLine_mem {text : String} (htext : text ∈ texts)
    (h : pieces? "&" text = some (l, r)) : conjunctionLine l r ∈ inferenceLines texts s := by
  have hmem : conjunctionLine l r ∈ conjunctionLines texts.zipIdx := by
    obtain ⟨i, hi⟩ := List.mem_iff_getElem?.1 htext
    refine List.mem_flatMap.2 ⟨(text, i), List.mk_mem_zipIdx_iff_getElem?.2 hi, ?_⟩
    simp only [h]
    exact List.mem_pair.2 (Or.inr rfl)
  rw [inferenceLines, if_neg]
  · exact List.mem_append_left _ (List.mem_append_right _ hmem)
  · rw [List.isEmpty_iff]
    intro hnil
    simp only [List.append_eq_nil_iff] at hnil
    rw [hnil.1.2] at hmem
    cases hmem

end LabelView

/-! ## Printed axioms -/

namespace Formula

variable {f : Formula} {x l r : String}

lemma exists_var_of_isSymbol (hf : ∀ y ∈ f.names, IsWord y) (h : isSymbol f.bracketed = true) :
    ∃ x, f = .var x := by
  have hlength : f.bracketed.toList.length = 1 := by
    rw [isSymbol] at h
    split at h
    · next hc => rw [hc]; rfl
    · cases h
  induction f using connectiveInduction with
  | var x => exact ⟨x, rfl⟩
  | neg a ih =>
      obtain ⟨c, rest, hfirst, -⟩ := (edges_bracketed (f := a) hf).first
      simp [toList_bracketed_neg, hfirst] at hlength
  | join d a b iha ihb => simp [toList_bracketed_apply] at hlength

/-- A text that begins with a tilde is that of a negation. -/
lemma exists_neg_of_begins (hf : ∀ y ∈ f.names, IsWord y) (h : begins "~" f.bracketed = true) :
    ∃ a, f = .neg a := by
  obtain ⟨rest, hrest⟩ := List.isPrefixOf_iff_prefix.1 h
  induction f using connectiveInduction with
  | var x =>
      have hx :=
        (hf x (by simp [names])).append_ne_cons (r := []) (c := '~') (s := rest) (by decide)
      rw [List.append_nil] at hx
      exact absurd hrest.symm hx
  | neg a ih => exact ⟨a, rfl⟩
  | join d a b iha ihb => simp [toList_bracketed_apply] at hrest

lemma trim_afterFirst_neg {a : Formula} (ha : ∀ y ∈ a.names, IsWord y) :
    trim (afterFirst 1 (neg a).bracketed) = a.bracketed := by
  have htrim := (edges_bracketed ha).trimWhere_eq [] [] (by simp) (by simp)
  rw [List.append_nil, List.nil_append, String.ofList_toList] at htrim
  rw [afterFirst, toList_bracketed_neg, List.drop_one, List.tail_cons, String.ofList_toList]
  exact htrim

lemma equals_not_mem (hf : ∀ y ∈ f.names, IsWord y) : '=' ∉ f.bracketed.toList := by
  induction f using connectiveInduction with
  | var x => exact (hf x (by simp [names])).not_mem_equals
  | neg a ih => simp [toList_bracketed_neg, ih hf]
  | join d a b iha ihb =>
      rw [names_apply, List.forall_mem_append] at hf
      have hsymbol : '=' ∉ d.symbol.toList := by cases d <;> decide
      simp [toList_bracketed_apply, hsymbol, iha hf.1, ihb hf.2]

/-- No other characters are in the pieces than in the text. -/
lemma equals_not_mem_pieces (hf : f.Worded)
    (h : LabelView.pieces? Connective.conj.symbol f.bracketed = some (l, r)) :
    '=' ∉ l.toList ∧ '=' ∉ r.toList := by
  have hone := uses_eq_one_of_pieces? hf (by decide) h
  obtain ⟨a, b, before, behind, haround⟩ := exists_around (hone.trans_ne Nat.one_ne_zero)
  rw [haround.pieces? hf (by decide) hone, Option.some.injEq, Prod.mk.injEq] at h
  obtain ⟨rfl, rfl⟩ := h
  have hno := equals_not_mem hf.words
  rw [haround.text] at hno
  simp only [List.mem_append, List.mem_cons, not_or] at hno
  constructor
  · intro hin
    have hin := mem_of_mem_trimWhere hin
    simp_all
  · intro hin
    have hin := mem_of_mem_trimWhere hin
    simp_all

lemma mem_names_of_opens_or_ends {c : Connective} (h : f.Opens c x ∨ f.Ends c x) :
    x ∈ f.names := by
  rcases h with h | h
  · obtain ⟨b, before, behind, haround, -⟩ := h.exists_around
    exact haround.mem_names (by simp [names_apply, names])
  · obtain ⟨a, before, behind, haround, -⟩ := h.exists_around
    exact haround.mem_names (by simp [names_apply, names])

/-- The formula has one conjunction, which is not at its root, and opens or ends with it, next to
the symbol. -/
def Misread (f : Formula) (x : String) : Prop :=
  f.uses .conj = 1 ∧ (¬ ∃ a b, f = .conj a b) ∧ (f.Opens .conj x ∨ f.Ends .conj x)

end Formula

/-! ## Which conclusions follow -/

namespace LabelView

open Formula

variable {axioms : List Formula} {s : Sample} {x : String}

/-- **What is inferred by modus ponens follows.** -/
lemma entails_of_ponensLine_mem (haxioms : ∀ f ∈ axioms, f.Worded) (hx : IsWord x)
    (h : ponensLine x ∈ inferenceLines (axioms.map bracketed) s) : Entails axioms (.var x) := by
  generalize hline : ponensLine x = line at h
  cases grounded_of_mem h with
  | ponens ha hsymbol hb hpieces =>
      obtain rfl := ponensLine_inj hline
      obtain ⟨f, hf, rfl⟩ := List.mem_map.1 ha
      obtain ⟨g, hg, rfl⟩ := List.mem_map.1 hb
      obtain ⟨y, rfl⟩ := exists_var_of_isSymbol (haxioms f hf).words hsymbol
      have hy : IsWord y := (haxioms _ hf).words y (by simp [names])
      have hright := @trimParens_behind x [] hx (by simp)
      rw [List.append_nil, String.ofList_toList] at hright
      have hroot : g = .impl (.var y) (.var x) :=
        eq_apply_of_pieces? (c := .impl) (haxioms g hg) (by decide) hy (by simpa [names] using hx)
          (by rw [hright]; exact hpieces)
      rw [hroot] at hg
      exact (Entails.of_mem hg).ponens (Entails.of_mem hf)
  | tollens => exact absurd hline (conclusions_apart (l := "") (r := "")).1
  | conjunction => exact absurd hline (conclusions_apart (y := "")).2.1
  | remark hremark =>
      rw [← hline, concludes_ponensLine] at hremark
      cases hremark

/-- **What is inferred by modus tollens follows.** -/
lemma entails_of_tollensLine_mem (haxioms : ∀ f ∈ axioms, f.Worded) (hx : IsWord x)
    (h : tollensLine x ∈ inferenceLines (axioms.map bracketed) s) :
    Entails axioms (.neg (.var x)) := by
  generalize hline : tollensLine x = line at h
  cases grounded_of_mem h with
  | tollens ha hb htilde hpieces =>
      obtain rfl := tollensLine_inj hline
      obtain ⟨f, hf, rfl⟩ := List.mem_map.1 ha
      obtain ⟨g, hg, rfl⟩ := List.mem_map.1 hb
      obtain ⟨a, rfl⟩ := exists_neg_of_begins (haxioms g hg).words htilde
      have hwords : ∀ y ∈ a.names, IsWord y := (haxioms _ hg).words
      rw [trim_afterFirst_neg hwords] at hpieces
      have hroot : f = .impl (.var x) a :=
        eq_apply_of_pieces? (c := .impl) (haxioms f hf) (by decide) hx hwords hpieces
      rw [hroot] at hf
      intro v hv
      have himpl := hv _ hf
      have hdenied := hv _ hg
      simp_all [eval]
  | ponens => exact absurd hline.symm (conclusions_apart (l := "") (r := "")).1
  | conjunction => exact absurd hline (conclusions_apart (x := "")).2.2
  | remark hremark =>
      rw [← hline, concludes_tollensLine] at hremark
      cases hremark

/-- **A symbol is declared true because of a conjunction exactly if an axiom with one conjunction
opens or ends with it.** -/
lemma namesConjunct_iff (haxioms : ∀ f ∈ axioms, f.Worded) (hx : IsWord x) :
    NamesConjunct (inferenceLines (axioms.map bracketed) s) x ↔
      ∃ f ∈ axioms, f.uses .conj = 1 ∧ (f.Opens .conj x ∨ f.Ends .conj x) := by
  have hequals := hx.not_mem_equals
  constructor
  · rintro ⟨text, h⟩
    obtain ⟨l, r, hmem, hsides⟩ : ∃ l r, conjunctionLine l r ∈
        inferenceLines (axioms.map bracketed) s ∧ (l = x ∨ r = x) := by
      rcases h with h | h
      · exact ⟨x, text, h, Or.inl rfl⟩
      · exact ⟨text, x, h, Or.inr rfl⟩
    generalize hline : conjunctionLine l r = line at hmem
    cases grounded_of_mem hmem with
    | conjunction ha hpieces =>
        obtain ⟨f, hf, rfl⟩ := List.mem_map.1 ha
        obtain ⟨hleft, hright⟩ := equals_not_mem_pieces (haxioms f hf) hpieces
        rcases hsides with rfl | rfl
        · obtain rfl := conjunctionLine_inj_left hequals hleft hline
          have hopens := (exists_piece_left_iff (c := .conj) (haxioms f hf) (by decide) hx).1
            ⟨_, hpieces⟩
          exact ⟨f, hf, hopens.1, Or.inl hopens.2⟩
        · obtain rfl := conjunctionLine_inj_right hequals hright hline
          have hends := (exists_piece_right_iff (c := .conj) (haxioms f hf) (by decide) hx).1
            ⟨_, hpieces⟩
          exact ⟨f, hf, hends.1, Or.inr hends.2⟩
    | ponens => exact absurd hline.symm (conclusions_apart (y := "")).2.1
    | tollens => exact absurd hline.symm (conclusions_apart (x := "")).2.2
    | remark hremark =>
        rw [← hline, concludes_conjunctionLine] at hremark
        cases hremark
  · rintro ⟨f, hf, hone, hopens | hends⟩
    · obtain ⟨r, hpieces⟩ := (exists_piece_left_iff (haxioms f hf) (by decide) hx).2 ⟨hone, hopens⟩
      exact ⟨r, Or.inl (conjunctionLine_mem (List.mem_map_of_mem hf) hpieces)⟩
    · obtain ⟨l, hpieces⟩ := (exists_piece_right_iff (haxioms f hf) (by decide) hx).2 ⟨hone, hends⟩
      exact ⟨l, Or.inr (conjunctionLine_mem (List.mem_map_of_mem hf) hpieces)⟩

/-- An operand of a conjunction at the root follows. -/
lemma entails_of_conj_mem {a b : Formula} (hmem : .conj a b ∈ axioms)
    (hone : (conj a b).uses .conj = 1)
    (h : (conj a b).Opens .conj x ∨ (conj a b).Ends .conj x) : Entails axioms (.var x) := by
  have hboth := (Entails.of_mem hmem).both
  rw [uses, if_pos rfl] at hone
  generalize hroot : conj a b = f at h
  rcases h with h | h
  · cases h with
    | here b' =>
        cases hroot
        exact hboth.1
    | @left d a' b' h =>
        -- the connective of the root would be used a second time
        have hpos := h.uses_pos
        cases d <;> cases hroot
        omega
  · cases h with
    | here a' =>
        cases hroot
        exact hboth.2
    | neg h => cases hroot
    | @right d a' b' h =>
        have hpos := h.uses_pos
        cases d <;> cases hroot
        omega

/-- **Which inferences of an explanation follow from the axioms.**  Those by modus ponens and by
modus tollens do.  Those from conjunctions do exactly if the symbols follow that are declared true
because of a conjunction below the root of an axiom. -/
theorem inferences_follow_iff (axioms : List Formula) (haxioms : ∀ f ∈ axioms, f.Worded)
    (s : Sample) :
    (∀ x, IsWord x → ponensLine x ∈ inferenceLines (axioms.map bracketed) s →
      Entails axioms (.var x)) ∧
    (∀ x, IsWord x → tollensLine x ∈ inferenceLines (axioms.map bracketed) s →
      Entails axioms (.neg (.var x))) ∧
    ((∀ x, IsWord x → NamesConjunct (inferenceLines (axioms.map bracketed) s) x →
        Entails axioms (.var x)) ↔
      ∀ f ∈ axioms, ∀ x, f.Misread x → Entails axioms (.var x)) := by
  refine ⟨fun x hx => entails_of_ponensLine_mem haxioms hx,
    fun x hx => entails_of_tollensLine_mem haxioms hx, ?_, ?_⟩
  · rintro h f hf x ⟨hone, -, hend⟩
    have hx : IsWord x := (haxioms f hf).words x (mem_names_of_opens_or_ends hend)
    exact h x hx ((namesConjunct_iff haxioms hx).2 ⟨f, hf, hone, hend⟩)
  · intro h x hx hnamed
    obtain ⟨f, hf, hone, hend⟩ := (namesConjunct_iff haxioms hx).1 hnamed
    by_cases hroot : ∃ a b, f = .conj a b
    · obtain ⟨a, b, rfl⟩ := hroot
      exact entails_of_conj_mem hf hone hend
    · exact h f hf x ⟨hone, hroot, hend⟩

/-- A symbol and an implication, and an implication whose right side is denied. -/
theorem inferences_follow_iff_two_rules :
    let axioms : List Formula := [.var "P", .impl (.var "P") (.var "Q"),
      .impl (.var "R") (.disj (.var "S") (.var "T")), .neg (.disj (.var "S") (.var "T"))]
    let lines := inferenceLines (axioms.map bracketed) (.ofList [("P", 1), ("Q", 1)])
    (∀ f ∈ axioms, f.Worded) ∧ ponensLine "Q" ∈ lines ∧ tollensLine "R" ∈ lines ∧
      Entails axioms (.var "Q") ∧ Entails axioms (.neg (.var "R")) := by
  intro axioms lines
  have haxioms : ∀ f ∈ axioms, f.Worded := by decide +kernel
  have hponens : ponensLine "Q" ∈ lines := by decide +kernel
  have htollens : tollensLine "R" ∈ lines := by decide +kernel
  obtain ⟨hfirst, hsecond, -⟩ := inferences_follow_iff axioms haxioms (.ofList [("P", 1), ("Q", 1)])
  exact ⟨haxioms, hponens, htollens, hfirst "Q" (by decide +kernel) hponens,
    hsecond "R" (by decide +kernel) htollens⟩

/-- From a denied conjunction, which holds, its right side is inferred, which does not follow. -/
theorem denied_conjunction_misread :
    let axioms : List Formula := [.neg (.conj (.var "P") (.var "Q"))]
    let s : Sample := .ofList [("P", 1), ("Q", 0)]
    (∀ f ∈ axioms, f.eval (Sample.point s) = true) ∧
      conjunctionLine "~(P" "Q" ∈ inferenceLines (axioms.map bracketed) s ∧
      ¬ Entails axioms (.var "Q") := by
  refine ⟨by decide +kernel, by decide +kernel, fun h => ?_⟩
  have hfalse := h (fun y => y == "P") (by decide +kernel)
  revert hfalse
  decide +kernel

end LabelView

end AnnealProver
