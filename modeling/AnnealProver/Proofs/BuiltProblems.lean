import AnnealProver.Energy.LabelProblem
import AnnealProver.Proofs.BracketedText
import AnnealProver.Proofs.Dialects

/-!
# Problems over telling names that can be built

A problem encodes its axioms, its goal, and what the gates need, in this order and with leads that
are fixed.  So it comes down to a list of **calls** of the encoder (`LabelProblem.calls`), and what
holds of such lists holds of problems; the ties that enter the energy are those of the axioms and
the goal, the **demands**.

A problem is **built** from formulas that the located dialect reads out of some text, either from
nothing or on top of an earlier problem.  Symbols are then words, and so are the names of all bits
(`LabelProblem.Built.entries_worded`, `LabelProblem.Built.isWord_control`).
-/

namespace AnnealProver

/-! ## Words -/

namespace Text

variable {text word : String}

lemma Continues.append {text' : String} (h : Continues text) (h' : Continues text') :
    Continues (text ++ text') := by
  rw [Continues, String.toList_append, List.forall_mem_append]
  exact ⟨h, h'⟩

lemma IsWord.append (h : Continues text) (hword : IsWord word) : IsWord (text ++ word) where
  ne_nil := by simp [hword.ne_nil]
  continues := h.append hword.continues

lemma continues_of_all (h : text.toList.all continuesName = true) : Continues text :=
  List.all_eq_true.1 h

lemma continues_repr (n : ℕ) : Continues n.repr := by
  intro c hc
  rw [Nat.repr, String.toList_ofList] at hc
  have hdigit : c.isDigit = true := Nat.isDigit_of_mem_toDigits (by decide) (by decide) hc
  have hsmall : c.toNat < 128 := by
    simp only [Char.isDigit, Bool.and_eq_true, decide_eq_true_eq] at hdigit
    have := UInt32.le_iff_toNat_le.1 hdigit.2
    exact Nat.lt_of_le_of_lt this (by decide)
  simp [continuesName, isAlphanumeric, hsmall, Char.isAlphanum, hdigit]

end Text

namespace Formula

variable {f g : Formula} {lead : String} {x : String × Formula}

lemma Worded.of_mem_subformulas (hf : f.Worded) (hg : g ∈ f.subformulas) : g.Worded where
  iffFree := by
    have hfree := hf.iffFree
    clear hf
    induction hfree with
    | var x =>
        obtain rfl := List.mem_singleton.1 hg
        exact .var x
    | @neg a ha ih =>
        rcases List.mem_cons.1 hg with rfl | hg
        · exact .neg ha
        · exact ih hg
    | @join c a b hc ha hb iha ihb =>
        rw [subformulas_apply, List.mem_cons, List.mem_append] at hg
        rcases hg with rfl | hg | hg
        · exact .join hc ha hb
        · exact iha hg
        · exact ihb hg
  words y hy := hf.words y (mem_names_of_mem_subformulas hg hy)

lemma isWord_label (hf : f.IffFree) (hwords : ∀ y ∈ f.names, Text.IsWord y) :
    Text.IsWord f.label := by
  induction hf with
  | var x => exact hwords x (by simp [names])
  | neg ha ih => exact .append (Text.continues_of_all (by decide)) (ih hwords)
  | @join c a b hc ha hb iha ihb =>
      rw [names_apply, List.forall_mem_append] at hwords
      have hleft := (iha hwords.1).continues
      cases c with
      | iff => contradiction
      | conj | disj | impl =>
          exact .append (hleft.append (Text.continues_of_all (by decide))) (ihb hwords.2)

lemma isWord_bitName (hf : f.Worded) (hlead : Text.Continues lead) :
    Text.IsWord (f.bitName lead) := by
  obtain ⟨hfree, hwords⟩ := hf
  cases hfree with
  | var x => exact hwords x (by simp [names])
  | neg ha =>
      rw [bitName_neg, labelName_neg]
      exact .append (hlead.append (Text.continues_of_all (by decide))) (isWord_label ha hwords)
  | @join c a b hc ha hb =>
      rw [names_apply, List.forall_mem_append] at hwords
      have hstem : Text.Continues c.stem := Text.continues_of_all (by cases c <;> decide)
      have hmark : Text.Continues "_" := Text.continues_of_all (by decide)
      rw [bitName_apply, labelName_apply hc]
      exact .append ((((hlead.append hstem).append hmark).append
        (isWord_label ha hwords.1).continues).append hmark) (isWord_label hb hwords.2)

/-- A part is named with the lead, or without one below a negation. -/
lemma exists_lead_of_mem_namings (hx : x ∈ f.namings lead) :
    x.1 = x.2.bitName lead ∨ x.1 = x.2.bitName "" := by
  induction f using connectiveInduction generalizing lead with
  | var y => exact Or.inl (by rw [List.mem_singleton.1 hx]; rfl)
  | neg a ih =>
      rcases List.mem_cons.1 hx with rfl | hx
      · exact Or.inl rfl
      · exact Or.inr (or_self_iff.1 (ih hx))
  | join c a b iha ihb =>
      rcases mem_namings_apply.1 hx with rfl | hx | hx
      · exact Or.inl bitName_apply.symm
      · exact iha hx
      · exact ihb hx

lemma worded_of_mem_namings (hf : f.Worded) (hlead : Text.Continues lead)
    (hx : x ∈ f.namings lead) : Text.IsWord x.1 ∧ x.2.Worded := by
  have hpart : x.2.Worded := hf.of_mem_subformulas (mem_subformulas_of_mem_namings hx)
  refine ⟨?_, hpart⟩
  rcases exists_lead_of_mem_namings hx with hname | hname
  · rw [hname]
    exact isWord_bitName hpart hlead
  · rw [hname]
    exact isWord_bitName hpart (Text.continues_of_all (by decide))

end Formula

/-! ## Formulas that can be read -/

namespace Grammar

variable {g : Grammar} {levels : List Connective} {ts : List Token} {cs : List Char} {f : Formula}

lemma Derives.name_mem (h : g.Derives levels ts f) {y : String} (hy : y ∈ f.names) :
    .name y.toList ∈ ts := by
  induction h with
  | operand hf ih => exact ih hy
  | chain hf hh ihf ihh =>
      rw [Formula.names_apply, List.mem_append] at hy
      rw [List.mem_append, List.mem_cons]
      exact hy.imp ihf fun hy => Or.inr (ihh hy)
  | tilde hf ih => exact List.mem_cons_of_mem _ (ih hy)
  | parens hf ih => exact List.mem_cons_of_mem _ (List.mem_append_left _ (ih hy))
  | name => simp_all [Formula.names]

lemma Written.isWord (h : compact.Written ts cs) {y : String} (hy : .name y.toList ∈ ts) :
    Text.IsWord y := by
  induction h with
  | blanks => cases hy
  | @token t ts blanks word cs hblanks hword hcs ih =>
      rcases List.mem_cons.1 hy with rfl | hy
      · generalize hname : Token.name y.toList = t at hword
        cases hword with
        | @name c cs hc hcs =>
            rw [Token.name.injEq] at hname
            have hcontinues : ∀ d ∈ c :: cs, Text.continuesName d = true :=
              List.forall_mem_cons.2 ⟨hc, hcs⟩
            exact ⟨by simp [hname], fun d hd => hcontinues d (hname ▸ hd)⟩
        | op | tilde | opening | closing => cases hname
      · exact ih hy

end Grammar

/-- Some text is read as the formula by a parser without equivalences. -/
def Formula.Legible (f : Formula) : Prop :=
  ∃ text, Formula.parse .located text = .ok f

lemma Formula.legible_of_toOption {f : Formula} {t : String}
    (h : (Formula.parse .located t).toOption = some f) : f.Legible := by
  refine ⟨t, ?_⟩
  cases hread : Formula.parse .located t with
  | error e => simp [hread, Except.toOption] at h
  | ok g => simp_all [Except.toOption]

lemma Formula.iffFree_of_not_mem {f : Formula} (h : ∀ a b, .iff a b ∉ f.subformulas) :
    f.IffFree := by
  induction f using connectiveInduction with
  | var x => exact .var x
  | neg a ih => exact .neg (ih fun c d hin => h c d (List.mem_cons_of_mem _ hin))
  | join c a b iha ihb =>
      simp only [subformulas_apply, List.mem_cons, List.mem_append, not_or] at h
      refine .join ?_ (iha fun p q => (h p q).2.1) (ihb fun p q => (h p q).2.2)
      rintro rfl
      exact (h a b).1 rfl

lemma Formula.Legible.worded {f : Formula} (hf : f.Legible) : f.Worded := by
  obtain ⟨text, hread⟩ := hf
  obtain ⟨ts, hwritten, hderives⟩ := Formula.parse_located_eq_ok_iff.1 hread
  exact ⟨Formula.iffFree_of_not_mem (hderives.no_iff (by decide) (by decide)),
    fun y hy => hwritten.isWord (hderives.name_mem hy)⟩

/-! ## Problems that can be built -/

namespace LabelEncoder

variable {e : LabelEncoder} {calls calls' : List (String × Formula)}

lemma encodeAll_append :
    (encodeAll e (calls ++ calls')).2 = (encodeAll (encodeAll e calls).2 calls').2 := by
  induction calls generalizing e with
  | nil => rfl
  | cons call calls ih => exact ih

end LabelEncoder

namespace LabelProblem

open LabelEncoder

variable {e : LabelEncoder} {axioms fs : List Formula} {goal f : Formula} {i : ℕ} {p : LabelProblem}
  {call : String × Formula}

/-- The axioms with their leads. -/
def axiomCalls : ℕ → List Formula → List (String × Formula)
  | _, [] => []
  | i, f :: rest => (s!"Axiom{i}_", f) :: axiomCalls (i + 1) rest

/-- What is encoded for the gate of an axiom. -/
def gateCalls (axioms : List Formula) : Formula → List (String × Formula)
  | .impl p q => if axioms.contains p then [("", p), ("", .impl p q), ("", q)] else []
  | _ => []

/-- The axioms and the goal with their leads. -/
def demands (axioms : List Formula) (goal : Formula) : List (String × Formula) :=
  axiomCalls 0 axioms ++ [("Goal_", goal)]

lemma encodeAxioms_eq : encodeAxioms e i fs = encodeAll e (axiomCalls i fs) := by
  induction fs generalizing e i with
  | nil => rfl
  | cons f fs ih => simp only [encodeAxioms, axiomCalls, encodeAll, ih]

/-- At each axiom the search hands out bits, and adds a gate that is named after them. -/
lemma exists_findGates_cons (axioms : List Formula) (e : LabelEncoder) (f : Formula)
    (fs : List Formula) : ∃ own : List (Gate × String),
      findGates axioms e (f :: fs) =
        (own ++ (findGates axioms (encodeAll e (gateCalls axioms f)).2 fs).1,
          (findGates axioms (encodeAll e (gateCalls axioms f)).2 fs).2) ∧
      ∀ g ∈ own, ∃ p q, f = .impl p q ∧
        g.1.control = "Rule_MP_" ++ p.bitName "" ++ "_" ++ q.bitName "" := by
  cases f with
  | impl p q =>
      by_cases hp : axioms.contains p = true
      · rw [gateCalls, if_pos hp, findGates, if_pos hp]
        refine ⟨_, congrArg₂ Prod.mk rfl rfl, List.forall_mem_singleton.2 ⟨p, q, rfl, ?_⟩⟩
        simp only [encode_fst]
        rfl
      · rw [gateCalls, if_neg hp, findGates, if_neg hp]
        exact ⟨[], rfl, List.forall_mem_nil _⟩
  | var | neg | conj | disj | iff => exact ⟨[], rfl, List.forall_mem_nil _⟩

lemma findGates_snd :
    (findGates axioms e fs).2 = (encodeAll e (fs.flatMap (gateCalls axioms))).2 := by
  induction fs generalizing e with
  | nil => rfl
  | cons f fs ih =>
      obtain ⟨own, heq, -⟩ := exists_findGates_cons axioms e f fs
      rw [heq, ih, List.flatMap_cons, encodeAll_append]

/-- The control bit of a gate is named after a premise and a conclusion. -/
lemma exists_of_mem_findGates {g : Gate × String} (hg : g ∈ (findGates axioms e fs).1) :
    ∃ p q, .impl p q ∈ fs ∧ g.1.control = "Rule_MP_" ++ p.bitName "" ++ "_" ++ q.bitName "" := by
  induction fs generalizing e with
  | nil => cases hg
  | cons f fs ih =>
      obtain ⟨own, heq, hown⟩ := exists_findGates_cons axioms e f fs
      rw [heq, List.mem_append] at hg
      rcases hg with hg | hg
      · obtain ⟨p, q, rfl, hcontrol⟩ := hown g hg
        exact ⟨p, q, List.mem_cons_self, hcontrol⟩
      · obtain ⟨p, q, hmem, hcontrol⟩ := ih hg
        exact ⟨p, q, List.mem_cons_of_mem _ hmem, hcontrol⟩

/-- All that is encoded for a problem, in order. -/
def calls (axioms : List Formula) (goal : Formula) : List (String × Formula) :=
  demands axioms goal ++ axioms.flatMap (gateCalls axioms)

lemma next_encoder {before : Option LabelProblem} : (next before axioms goal).encoder =
    (encodeAll ((before.map (·.encoder)).getD {}) (calls axioms goal)).2 := by
  rw [next, calls, demands, encodeAll_append, encodeAll_append]
  simp only [encodeAxioms_eq, findGates_snd]
  rfl

lemma exists_of_mem_axiomCalls (h : call ∈ axiomCalls i fs) :
    ∃ j : ℕ, call.1 = "Axiom" ++ j.repr ++ "_" ∧ call.2 ∈ fs := by
  induction fs generalizing i with
  | nil => cases h
  | cons f fs ih =>
      rcases List.mem_cons.1 h with rfl | h
      · exact ⟨i, rfl, List.mem_cons_self⟩
      · obtain ⟨j, hlead, hmem⟩ := ih h
        exact ⟨j, hlead, List.mem_cons_of_mem _ hmem⟩

lemma mem_subformulas_of_mem_gateCalls (h : call ∈ gateCalls axioms f) :
    call.1 = "" ∧ call.2 ∈ f.subformulas := by
  cases f with
  | impl p q =>
      rw [gateCalls] at h
      split_ifs at h
      · simp only [List.mem_cons, List.not_mem_nil, or_false] at h
        rcases h with rfl | rfl | rfl
        · simp [Formula.subformulas, Formula.self_mem_subformulas]
        · exact ⟨rfl, Formula.self_mem_subformulas _⟩
        · simp [Formula.subformulas, Formula.self_mem_subformulas]
      · cases h
  | var | neg | conj | disj | iff => cases h

/-- What is encoded for formulas over words is named by words. -/
lemma worded_of_mem_calls (haxioms : ∀ f ∈ axioms, f.Worded) (hgoal : goal.Worded) :
    ∀ call ∈ calls axioms goal, Text.Continues call.1 ∧ call.2.Worded := by
  intro call hcall
  simp only [calls, demands, List.mem_append, List.mem_singleton, List.mem_flatMap] at hcall
  rcases hcall with (hcall | rfl) | ⟨f, hf, hcall⟩
  · obtain ⟨j, hlead, hmem⟩ := exists_of_mem_axiomCalls hcall
    rw [hlead]
    exact ⟨((Text.continues_of_all (by decide)).append (Text.continues_repr j)).append
      (Text.continues_of_all (by decide)), haxioms _ hmem⟩
  · have hlead : Text.Continues "Goal_" := Text.continues_of_all (by decide)
    exact ⟨hlead, hgoal⟩
  · obtain ⟨hlead, hmem⟩ := mem_subformulas_of_mem_gateCalls hcall
    rw [hlead]
    exact ⟨Text.continues_of_all (by decide), (haxioms f hf).of_mem_subformulas hmem⟩

lemma map_snd_axiomCalls (i : ℕ) : (axiomCalls i axioms).map (·.2) = axioms := by
  induction axioms generalizing i with
  | nil => rfl
  | cons f axioms ih => rw [axiomCalls, List.map_cons, ih]

lemma exists_demand (h : f ∈ axioms ++ [goal]) :
    ∃ call ∈ demands axioms goal, call.2 = f := by
  rw [← List.mem_map, demands, List.map_append, map_snd_axiomCalls]
  exact h

/-- The leads of the axioms and of the goal. -/
lemma exists_of_mem_demands (h : call ∈ demands axioms goal) :
    call.2 ∈ axioms ++ [goal] ∧ ∃ lead, call.1 = lead ++ "_" ∧ '_' ∉ lead.toList ∧
      (lead = "Goal" ∨ ∃ j : ℕ, lead = "Axiom" ++ j.repr) := by
  rcases List.mem_append.1 h with h | h
  · obtain ⟨j, hlead, hmem⟩ := exists_of_mem_axiomCalls h
    exact ⟨List.mem_append_left _ hmem, _, hlead, by simp, Or.inr ⟨j, rfl⟩⟩
  · obtain rfl := List.mem_singleton.1 h
    exact ⟨by simp, "Goal", rfl, by decide, Or.inl rfl⟩

/-- The gates come on top of what is encoded for the axioms and the goal. -/
lemma entries_after_subset (hfree : ∀ call ∈ calls axioms goal, call.2.IffFree) :
    (after (demands axioms goal)).formulas.entries ⊆
      (after (calls axioms goal)).formulas.entries := by
  rw [calls, List.forall_mem_append] at hfree
  have hnamings : namingsOf (calls axioms goal) =
      namingsOf (demands axioms goal) ++ namingsOf (axioms.flatMap (gateCalls axioms)) :=
    List.flatMap_append
  have hsound : Sound (namingsOf (calls axioms goal)) [] (after (demands axioms goal)) :=
    (sound_empty.encodeAll hfree.1 (hnamings ▸ List.subset_append_left _ _)).1
  rw [after, after, calls, encodeAll_append]
  exact (hsound.encodeAll hfree.2 (hnamings ▸ List.subset_append_right _ _)).2.1

lemma next_ties : (next none axioms goal).ties = (after (demands axioms goal)).ties := by
  rw [after, demands, encodeAll_append]
  simp only [next, encodeAxioms_eq]
  rfl

lemma next_bits : (next none axioms goal).axiomBits ++ [(next none axioms goal).goalBit] =
    (demands axioms goal).map fun call => call.2.bitName call.1 := by
  simp only [next, encodeAxioms_eq, encodeAll_fst, encode_fst, demands, List.map_append]
  rfl

/-- A problem over formulas that can be read, either the first one or one that follows another. -/
inductive Built : LabelProblem → Prop
  | first {axioms : List Formula} {goal : Formula} (haxioms : ∀ f ∈ axioms, f.Legible)
      (hgoal : goal.Legible) : Built (next none axioms goal)
  | later {p : LabelProblem} {axioms : List Formula} {goal : Formula} (hp : Built p)
      (haxioms : ∀ f ∈ axioms, f.Legible) (hgoal : goal.Legible) : Built (next (some p) axioms goal)

/-- The bits of the formulas and the control bits of the gates. -/
def bitNames (p : LabelProblem) : List String :=
  p.encoder.bits ++ p.gates.map (·.1.control)

namespace Built

lemma exists_calls (hp : p.Built) : ∃ cs, p.encoder = after cs ∧
    ∀ call ∈ cs, Text.Continues call.1 ∧ call.2.Worded := by
  induction hp with
  | @first axioms goal haxioms hgoal =>
      exact ⟨_, next_encoder, worded_of_mem_calls (fun f hf => (haxioms f hf).worded) hgoal.worded⟩
  | @later p axioms goal hp haxioms hgoal ih =>
      obtain ⟨cs, hencoder, hcs⟩ := ih
      refine ⟨cs ++ calls axioms goal, ?_, List.forall_mem_append.2
        ⟨hcs, worded_of_mem_calls (fun f hf => (haxioms f hf).worded) hgoal.worded⟩⟩
      rw [next_encoder, after, encodeAll_append, ← after, ← hencoder]
      rfl

/-- Every formula in the table is over words, and so is its name. -/
lemma entries_worded (hp : p.Built) :
    ∀ x ∈ p.encoder.formulas.entries, Text.IsWord x.1 ∧ x.2.Worded := by
  intro x hx
  obtain ⟨cs, hencoder, hcs⟩ := hp.exists_calls
  rw [hencoder] at hx
  obtain ⟨call, hcall, hx⟩ := List.mem_flatMap.1
    ((sound_after fun call hcall => (hcs call hcall).2.iffFree).named hx)
  exact Formula.worded_of_mem_namings (hcs call hcall).2 (hcs call hcall).1 hx

lemma isWord_control (hp : p.Built) : ∀ g ∈ p.gates, Text.IsWord g.1.control := by
  have hgates : ∀ {e : LabelEncoder} {axioms : List Formula}, (∀ f ∈ axioms, f.Legible) →
      ∀ g ∈ (findGates axioms e axioms).1, Text.IsWord g.1.control := by
    intro e axioms haxioms g hg
    obtain ⟨a, b, hmem, hcontrol⟩ := exists_of_mem_findGates hg
    have himpl := (haxioms _ hmem).worded
    have ha : a.Worded := himpl.of_mem_subformulas
      (List.mem_cons_of_mem _ (List.mem_append_left _ (Formula.self_mem_subformulas a)))
    have hb : b.Worded := himpl.of_mem_subformulas
      (List.mem_cons_of_mem _ (List.mem_append_right _ (Formula.self_mem_subformulas b)))
    have hnone : Text.Continues "" := Text.continues_of_all (by decide)
    rw [hcontrol]
    exact .append (((Text.continues_of_all (by decide)).append
      (Formula.isWord_bitName ha hnone).continues).append (Text.continues_of_all (by decide)))
      (Formula.isWord_bitName hb hnone)
  cases hp with
  | first haxioms hgoal => exact hgates haxioms
  | later hp haxioms hgoal => exact hgates haxioms

end Built

end LabelProblem

end AnnealProver
