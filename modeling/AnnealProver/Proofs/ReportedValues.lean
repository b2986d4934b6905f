import AnnealProver.Proof.Verification
import AnnealProver.Proofs.PartialEvaluation

/-!
# What is verified of a reported assignment

A reported assignment may have values for all names of the axioms and the goal, and still only those
of the **symbols**, the names of one upper-case character, are used to verify it.  A formula whose
evaluation asks for another name is passed over.

Which formulas are passed over depends on the reported values, since the right side of a conjunction
or a disjunction may not be asked for.  A formula is **judged** when only symbols are looked up in
its evaluation (`Formula.Judged`), and the assignment is accepted exactly when the judged formulas
are true (`checkValues_ok_iff_judged`).  About the axioms and the goal as a whole this is wrong only
when some of them are false and all of these are passed over.
-/

namespace AnnealProver

variable {t : NameTable Scalar} {axioms : List Formula} {f goal : Formula} {x : String}

/-- The truth values of all names in a reported assignment. -/
def reportedValues (t : NameTable Scalar) : Assignment :=
  ⟨t.entries.map fun entry => (entry.1, entry.2.truth)⟩

/-- Only symbols are looked up when the formula is evaluated under the reported values. -/
def Formula.Judged (t : NameTable Scalar) (f : Formula) : Prop :=
  ∀ x ∈ f.lookups ((reportedValues t).orElse false), Text.isSymbol x = true

instance : Decidable (f.Judged t) :=
  inferInstanceAs (Decidable (∀ x ∈ f.lookups _, Text.isSymbol x = true))

/-! ## The values of the symbols -/

/-- A symbol is looked up among all reported values, any other name in vain. -/
lemma get?_symbolValues (t : NameTable Scalar) (x : String) :
    (symbolValues t).get? x = if Text.isSymbol x then (reportedValues t).get? x else none := by
  have hentries : (symbolValues t).entries =
      (reportedValues t).entries.filter fun entry => Text.isSymbol entry.1 := by
    rw [symbolValues, reportedValues, List.filter_map]
    rfl
  rw [Table.get?, Table.get?, hentries, List.find?_filter]
  split_ifs with hx
  · congr 2
    funext entry
    by_cases hentry : entry.1 = x
    · simp [hentry, hx]
    · simp [hentry]
  · rw [Option.map_eq_none_iff, List.find?_eq_none]
    intro entry _ hentry
    obtain ⟨hsymbol, hname⟩ := of_decide_eq_true hentry
    rw [eq_of_beq hname] at hsymbol
    exact hx hsymbol

lemma reportedValues_extends (t : NameTable Scalar) :
    (reportedValues t).Extends (symbolValues t) := by
  intro x value h
  rw [get?_symbolValues] at h
  split_ifs at h
  exact h

lemma contains_reportedValues : (reportedValues t).contains x = t.contains x := by
  simp [reportedValues, Table.contains, Function.comp_def]

lemma contains_symbolValues :
    (symbolValues t).contains x = (Text.isSymbol x && t.contains x) := by
  rw [Table.contains_eq_isSome, get?_symbolValues, ← contains_reportedValues,
    Table.contains_eq_isSome]
  split_ifs with hx <;> simp [hx]

/-! ## Formulas that are judged -/

lemma Formula.isRefutedBy_iff {a : Assignment} :
    f.isRefutedBy a = true ↔ f.evaluate a = .ok false := by
  rw [isRefutedBy]
  cases f.evaluate a <;> simp

/-- Where nothing has a value nothing is refuted. -/
lemma Formula.not_isRefutedBy_of_isEmpty {a : Assignment} (h : a.entries.isEmpty = true) :
    f.isRefutedBy a = false := by
  rw [← Bool.not_eq_true, isRefutedBy_iff]
  intro hfalse
  obtain ⟨hvalues, -⟩ := (evaluate_eq_ok_iff (a.agrees_orElse false)).1 hfalse
  obtain ⟨x, hx⟩ := exists_mem_lookups (a.orElse false) f
  have hcontains := hvalues x hx
  simp [Table.contains, List.isEmpty_iff.1 h] at hcontains

/-- A formula with reported values for all its names is refuted by those of the symbols exactly if
it is judged and false. -/
lemma Formula.isRefutedBy_symbolValues (hgiven : ∀ x ∈ f.names, t.contains x = true) :
    f.isRefutedBy (symbolValues t) = true ↔
      f.Judged t ∧ f.evaluate (reportedValues t) = .ok false := by
  have hagrees := (reportedValues t).agrees_orElse false
  have hlookups : ∀ x ∈ f.lookups ((reportedValues t).orElse false), t.contains x = true :=
    fun x hx => hgiven x (lookups_subset _ f hx)
  rw [isRefutedBy_iff, evaluate_eq_ok_iff ((reportedValues_extends t).agrees hagrees),
    evaluate_eq_ok_iff hagrees]
  simp only [contains_symbolValues, contains_reportedValues, Bool.and_eq_true]
  constructor
  · exact fun h => ⟨fun x hx => (h.1 x hx).1, hlookups, h.2⟩
  · exact fun h => ⟨fun x hx => ⟨h.1 x hx, hlookups x hx⟩, h.2.2⟩

/-! ## The checks -/

lemma checkBits_ok_iff :
    (checkBits t).ok = true ↔ ∀ entry ∈ t.entries, entry.2.isBinary = true := by
  rw [checkBits]
  cases hfind : t.entries.find? fun entry => !entry.2.isBinary with
  | none => simpa using List.find?_eq_none.1 hfind
  | some entry =>
      have hentry : entry.2.isBinary = false := by simpa using List.find?_some hfind
      refine iff_of_false Bool.false_ne_true fun h => ?_
      rw [h entry (List.mem_of_find?_eq_some hfind)] at hentry
      cases hentry

/-- The values pass exactly if none of the formulas is refuted; that there may be no value at all
makes no difference. -/
lemma checkValues_ok_iff :
    (checkValues axioms goal t).ok = true ↔
      ∀ f ∈ axioms ++ [goal], f.isRefutedBy (symbolValues t) = false := by
  rw [List.forall_mem_append, List.forall_mem_singleton]
  by_cases hempty : (symbolValues t).entries.isEmpty = true
  · rw [checkValues, if_pos hempty]
    exact iff_of_true rfl ⟨fun f _ => Formula.not_isRefutedBy_of_isEmpty hempty,
      Formula.not_isRefutedBy_of_isEmpty hempty⟩
  rw [checkValues, if_neg hempty]
  cases hfind : axioms.zipIdx.find? fun a => a.1.isRefutedBy (symbolValues t) with
  | some a =>
      have ha : (a.1.isRefutedBy (symbolValues t)) = true :=
        List.find?_some (p := fun a : Formula × ℕ => a.1.isRefutedBy (symbolValues t)) hfind
      have hmem : a.1 ∈ axioms := List.fst_mem_of_mem_zipIdx (List.mem_of_find?_eq_some hfind)
      refine iff_of_false Bool.false_ne_true fun h => ?_
      rw [h.1 a.1 hmem] at ha
      cases ha
  | none =>
      have haxioms : ∀ f ∈ axioms, f.isRefutedBy (symbolValues t) = false := by
        rw [← List.zipIdx_map_fst 0 axioms, List.forall_mem_map]
        simpa using List.find?_eq_none.1 hfind
      rw [and_iff_right haxioms]
      cases goal.isRefutedBy (symbolValues t) <;> simp

/-- Without asking for entailment, what is verified is that the values are bits and pass. -/
lemma verify_eq_valid_iff : (verify false axioms goal t).verdict = .valid ↔
    (checkBits t).ok = true ∧ (checkValues axioms goal t).ok = true := by
  cases hbits : (checkBits t).ok with
  | false => simp [verify, hbits]
  | true => cases hvalues : (checkValues axioms goal t).ok <;> simp [verify, hbits, hvalues]

lemma quickVerify_eq {texts : List String} {text : String}
    (haxioms : Formula.parseAll .full texts = .ok axioms)
    (hgoal : Formula.parse .full text = .ok goal) :
    quickVerify texts text t = .ok ((checkBits t).ok && (checkValues axioms goal t).ok) := by
  have hverdict : ((verify false axioms goal t).verdict == .valid) =
      ((checkBits t).ok && (checkValues axioms goal t).ok) := by
    rw [Bool.eq_iff_iff, beq_iff_eq, verify_eq_valid_iff, Bool.and_eq_true]
  rw [quickVerify, haxioms, hgoal, ← hverdict]
  rfl

/-- Where all names have values the assignment passes exactly if the judged formulas are true. -/
lemma checkValues_ok_iff_judged
    (hgiven : ∀ f ∈ axioms ++ [goal], ∀ x ∈ f.names, t.contains x = true) :
    (checkValues axioms goal t).ok = true ↔
      ∀ f ∈ axioms ++ [goal], f.Judged t → f.evaluate (reportedValues t) ≠ .ok false := by
  rw [checkValues_ok_iff]
  refine forall₂_congr fun f hf => ?_
  rw [← Bool.not_eq_true, Formula.isRefutedBy_symbolValues (hgiven f hf), not_and]

/-- **When quick verification judges the assignment.**  Let all values be bits, and let all names in
the axioms and the goal have one.  Verification comes to an answer, and accepts exactly if all
judged formulas are true.  Its answer is right about all formulas exactly if they are all true or a
judged one is false.  So it is where all names are symbols. -/
theorem quickVerify_right_iff {texts : List String} {text : String}
    (haxioms : Formula.parseAll .full texts = .ok axioms)
    (hgoal : Formula.parse .full text = .ok goal)
    (hbits : ∀ entry ∈ t.entries, entry.2.isBinary = true)
    (hgiven : ∀ f ∈ axioms ++ [goal], ∀ x ∈ f.vars.toList, t.contains x = true) :
    ∃ accepted, quickVerify texts text t = .ok accepted ∧
      (accepted = true ↔
        ∀ f ∈ axioms ++ [goal], f.Judged t → f.evaluate (reportedValues t) = .ok true) ∧
      ((accepted = true ↔ ∀ f ∈ axioms ++ [goal], f.evaluate (reportedValues t) = .ok true) ↔
        (∀ f ∈ axioms ++ [goal], f.evaluate (reportedValues t) = .ok true) ∨
          ∃ f ∈ axioms ++ [goal], f.Judged t ∧ f.evaluate (reportedValues t) = .ok false) ∧
      ((∀ f ∈ axioms ++ [goal], ∀ x ∈ f.vars.toList, Text.isSymbol x = true) →
        (accepted = true ↔
          ∀ f ∈ axioms ++ [goal], f.evaluate (reportedValues t) = .ok true)) := by
  have hnames : ∀ f ∈ axioms ++ [goal], ∀ x ∈ f.names, t.contains x = true :=
    fun f hf x hx => hgiven f hf x (mem_nameSet_ofList.2 hx)
  have hvalues : ∀ f ∈ axioms ++ [goal], f.evaluate (reportedValues t) ≠ .ok false ↔
      f.evaluate (reportedValues t) = .ok true := by
    intro f hf
    refine Formula.evaluate_ne_false_iff fun x hx => ?_
    rw [contains_reportedValues]
    exact hnames f hf x hx
  have haccepted : (checkValues axioms goal t).ok = true ↔
      ∀ f ∈ axioms ++ [goal], f.Judged t → f.evaluate (reportedValues t) = .ok true := by
    rw [checkValues_ok_iff_judged hnames]
    exact forall₂_congr fun f hf => imp_congr_right fun _ => hvalues f hf
  refine ⟨(checkValues axioms goal t).ok, ?_, haccepted, ?_, fun hsymbols => ?_⟩
  · rw [quickVerify_eq haxioms hgoal, checkBits_ok_iff.2 hbits, Bool.true_and]
  · -- formulas that are all true are accepted anyway, so only an acceptance can be wrong
    constructor
    · intro hright
      by_cases hjudged : (checkValues axioms goal t).ok = true
      · exact Or.inl (hright.1 hjudged)
      · rw [checkValues_ok_iff_judged hnames] at hjudged
        simp only [not_forall, not_not, exists_prop] at hjudged
        exact Or.inr hjudged
    · rintro (htrue | ⟨f, hf, hjudged, hfalse⟩)
      · exact iff_of_true (haccepted.2 fun f hf _ => htrue f hf) htrue
      · refine iff_of_false (fun h => ?_) fun h => (hvalues f hf).2 (h f hf) hfalse
        exact (hvalues f hf).2 (haccepted.1 h f hf hjudged) hfalse
  · rw [haccepted]
    refine forall₂_congr fun f hf => forall_prop_of_true fun x hx => hsymbols f hf x ?_
    exact mem_nameSet_ofList.2 (f.lookups_subset _ hx)

/-- With `Q` false, `Q ∧ rain` is judged, and found to be false, without a look at `rain`. -/
theorem quickVerify_right_iff_unread :
    let axioms : List Formula := [.conj (.var "Q") (.var "rain")]
    let goal : Formula := .var "rain"
    let t : NameTable Scalar := ⟨[("Q", .number (.whole 0)), ("rain", .number (.whole 1))]⟩
    Formula.parseAll .full ["Q & rain"] = .ok axioms ∧ Formula.parse .full "rain" = .ok goal ∧
      (∀ entry ∈ t.entries, entry.2.isBinary = true) ∧
      (∀ f ∈ axioms ++ [goal], ∀ x ∈ f.vars.toList, t.contains x = true) ∧
      quickVerify ["Q & rain"] "rain" t = .ok false := by
  intro axioms goal t
  have haxioms : Formula.parseAll .full ["Q & rain"] = .ok axioms := rfl
  have hgoal : Formula.parse .full "rain" = .ok goal := rfl
  have hbits : ∀ entry ∈ t.entries, entry.2.isBinary = true := by decide
  have hgiven : ∀ f ∈ axioms ++ [goal], ∀ x ∈ f.vars.toList, t.contains x = true := by decide
  obtain ⟨accepted, hanswer, haccepted, -⟩ := quickVerify_right_iff haxioms hgoal hbits hgiven
  have hrejected : accepted = false := by
    rw [← Bool.not_eq_true, haccepted]
    intro htrue
    cases htrue (.conj (.var "Q") (.var "rain")) List.mem_cons_self (by decide)
  rw [hrejected] at hanswer
  exact ⟨haxioms, hgoal, hbits, hgiven, hanswer⟩

/-- The second axiom and the goal are false under the values given, but `wet` is no symbol, and so
both are passed over. -/
theorem quickVerify_overlooks_words :
    let t : NameTable Scalar := ⟨[("P", .number (.whole 1)), ("wet", .number (.whole 0))]⟩
    quickVerify ["P", "P -> wet"] "wet" t = .ok true ∧
      Formula.parse .full "P -> wet" = .ok (.impl (.var "P") (.var "wet")) ∧
      (Formula.impl (.var "P") (.var "wet")).evaluate (reportedValues t) = .ok false ∧
      (Formula.var "wet").evaluate (reportedValues t) = .ok false := by
  intro t
  have haxioms : Formula.parseAll .full ["P", "P -> wet"] =
      .ok [.var "P", .impl (.var "P") (.var "wet")] := rfl
  have hgoal : Formula.parse .full "wet" = .ok (.var "wet") := rfl
  refine ⟨?_, rfl, rfl, rfl⟩
  rw [quickVerify_eq haxioms hgoal]
  rfl

end AnnealProver
