import AnnealProver.Proof.Sequent
import AnnealProver.Proofs.Search

/-!
# The sequent search decides validity

A valuation **refutes** a sequent when it makes everything on the left true and everything on the
right false; a sequent is valid when nothing refutes it.  Stated this way both sides are conditions
on all members of a set, and every rule becomes an equivalence: a valuation refutes a sequent
exactly when it refutes one of the sequents it is taken apart into (`decompose_refutes`).

**Soundness** needs one half of this, on every branch.  **Completeness** needs the other half, that
taking apart loses connectives (`decompose_connectives`), and a refuting valuation for a sequent of
variables that is not closed (`exists_refutes_of_irreducible`): the names on the left are true, all
others false.  Since a valid sequent stays valid whichever formula is taken apart, the first way
that the search tries already succeeds, and the depth it needs is the number of connectives.

**The formula of a sequent** is false exactly where the sequent is refuted (`eval_toFormula`), so
its truth table is a second way to decide the same question.
-/

namespace AnnealProver

/-- The number of nodes of a formula that are not variables. -/
def Formula.connectives : Formula → ℕ
  | var _ => 0
  | neg a => a.connectives + 1
  | conj a b | disj a b | impl a b | iff a b => a.connectives + b.connectives + 1

namespace Sequent

variable {s t : Sequent} {f : Formula} {v : Valuation}

/-- The number of connectives in the formulas of both sides. -/
def connectives (s : Sequent) : ℕ :=
  (s.antecedent.toList.map Formula.connectives).sum +
    (s.succedent.toList.map Formula.connectives).sum

/-- Every valuation that makes the left side true makes something on the right side true. -/
def Valid (s : Sequent) : Prop :=
  ∀ v : Valuation, (∀ f ∈ s.antecedent.toList, f.eval v = true) →
    ∃ f ∈ s.succedent.toList, f.eval v = true

/-- The valuation makes the whole left side true and the whole right side false. -/
def Refutes (v : Valuation) (s : Sequent) : Prop :=
  (∀ f ∈ s.antecedent.toList, f.eval v = true) ∧ ∀ f ∈ s.succedent.toList, f.eval v = false

lemma valid_iff : s.Valid ↔ ∀ v, ¬ Refutes v s := by
  refine forall_congr' fun v => ?_
  simp only [Refutes, not_and, not_forall, Bool.not_eq_false, exists_prop]

/-! ## Adding and taking off formulas -/

lemma refutes_addLeft : Refutes v (s.addLeft f) ↔ Refutes v s ∧ f.eval v = true := by
  simp only [Refutes, addLeft, OrderedSet.forall_insert (Formula.respects_eval v true)]
  tauto

lemma refutes_addRight : Refutes v (s.addRight f) ↔ Refutes v s ∧ f.eval v = false := by
  simp only [Refutes, addRight, OrderedSet.forall_insert (Formula.respects_eval v false)]
  tauto

lemma refutes_dropLeft (hf : f ∈ s.antecedent.toList) :
    Refutes v s ↔ Refutes v (s.dropLeft f) ∧ f.eval v = true := by
  have h := OrderedSet.forall_erase (Formula.respects_eval v true) hf
  simp only [Refutes, dropLeft, h]
  tauto

lemma refutes_dropRight (hf : f ∈ s.succedent.toList) :
    Refutes v s ↔ Refutes v (s.dropRight f) ∧ f.eval v = false := by
  have h := OrderedSet.forall_erase (Formula.respects_eval v false) hf
  simp only [Refutes, dropRight, h]
  tauto

lemma connectives_addLeft : (s.addLeft f).connectives ≤ s.connectives + f.connectives := by
  have h := OrderedSet.sum_insert_le (s := s.antecedent) (a := f) Formula.connectives
  simp only [connectives, addLeft]
  omega

lemma connectives_addRight : (s.addRight f).connectives ≤ s.connectives + f.connectives := by
  have h := OrderedSet.sum_insert_le (s := s.succedent) (a := f) Formula.connectives
  simp only [connectives, addRight]
  omega

lemma connectives_dropLeft (hf : f ∈ s.antecedent.toList) :
    (s.dropLeft f).connectives + f.connectives ≤ s.connectives := by
  have h := OrderedSet.sum_erase_add_le Formula.connectives f.alike_refl hf
  simp only [connectives, dropLeft]
  omega

lemma connectives_dropRight (hf : f ∈ s.succedent.toList) :
    (s.dropRight f).connectives + f.connectives ≤ s.connectives := by
  have h := OrderedSet.sum_erase_add_le Formula.connectives f.alike_refl hf
  simp only [connectives, dropRight]
  omega

/-! ## The rules are equivalences and lose connectives -/

/-- Taking apart a false formula on the right: the sequents it leads to are refuted by the same
valuations. -/
lemma splitRight?_refutes {rule : SequentRule} {subs : List Sequent}
    (h : s.splitRight? f = some (rule, subs)) :
    Refutes v s ∧ f.eval v = false ↔ ∃ t ∈ subs, Refutes v t := by
  cases f with
  | var x => simp [splitRight?] at h
  | neg a | disj a b | impl a b =>
      obtain ⟨-, rfl⟩ := Prod.mk.inj (Option.some.inj h)
      simp [refutes_addLeft, refutes_addRight, Formula.eval, and_assoc]
  | conj a b =>
      obtain ⟨-, rfl⟩ := Prod.mk.inj (Option.some.inj h)
      simp only [List.mem_cons, List.not_mem_nil, or_false, exists_eq_or_imp, exists_eq_left,
        refutes_addRight, Formula.eval, Bool.and_eq_false_iff]
      tauto
  | iff a b =>
      obtain ⟨-, rfl⟩ := Prod.mk.inj (Option.some.inj h)
      simp only [List.mem_cons, List.not_mem_nil, or_false, exists_eq_or_imp, exists_eq_left,
        refutes_addLeft, refutes_addRight, Formula.eval]
      cases a.eval v <;> cases b.eval v <;> simp

/-- Taking apart a true formula on the left. -/
lemma splitLeft?_refutes {rule : SequentRule} {subs : List Sequent}
    (h : s.splitLeft? f = some (rule, subs)) :
    Refutes v s ∧ f.eval v = true ↔ ∃ t ∈ subs, Refutes v t := by
  cases f with
  | var x => simp [splitLeft?] at h
  | neg a | conj a b =>
      obtain ⟨-, rfl⟩ := Prod.mk.inj (Option.some.inj h)
      simp [refutes_addLeft, refutes_addRight, Formula.eval, and_assoc]
  | disj a b | impl a b =>
      obtain ⟨-, rfl⟩ := Prod.mk.inj (Option.some.inj h)
      simp only [List.mem_cons, List.not_mem_nil, or_false, exists_eq_or_imp, exists_eq_left,
        refutes_addLeft, refutes_addRight, Formula.eval, Bool.or_eq_true, Bool.not_eq_true']
      tauto
  | iff a b =>
      obtain ⟨-, rfl⟩ := Prod.mk.inj (Option.some.inj h)
      simp only [List.mem_cons, List.not_mem_nil, or_false, exists_eq_or_imp, exists_eq_left,
        refutes_addLeft, refutes_addRight, Formula.eval]
      cases a.eval v <;> cases b.eval v <;> simp

lemma splitRight?_connectives {rule : SequentRule} {subs : List Sequent}
    (h : s.splitRight? f = some (rule, subs)) (ht : t ∈ subs) :
    t.connectives < s.connectives + f.connectives := by
  cases f with
  | var x => simp [splitRight?] at h
  | neg a | conj a b | disj a b | impl a b | iff a b =>
      obtain ⟨-, rfl⟩ := Prod.mk.inj (Option.some.inj h)
      grind [Formula.connectives, connectives_addLeft, connectives_addRight]

lemma splitLeft?_connectives {rule : SequentRule} {subs : List Sequent}
    (h : s.splitLeft? f = some (rule, subs)) (ht : t ∈ subs) :
    t.connectives < s.connectives + f.connectives := by
  cases f with
  | var x => simp [splitLeft?] at h
  | neg a | conj a b | disj a b | impl a b | iff a b =>
      obtain ⟨-, rfl⟩ := Prod.mk.inj (Option.some.inj h)
      grind [Formula.connectives, connectives_addLeft, connectives_addRight]

/-- A formula that stands on both sides cannot be true and false. -/
lemma not_refutes_of_isClosed (h : s.isClosed = true) : ¬ Refutes v s := by
  rintro ⟨hleft, hright⟩
  obtain ⟨f, hf, hcontains⟩ := List.any_eq_true.1 h
  have htrue : f.eval v = true := hleft f hf
  have hfalse := OrderedSet.forall_of_contains (Formula.respects_eval v false) hright hcontains
  simp [htrue] at hfalse

/-- Each way to take a sequent apart comes from a formula of one of its sides. -/
lemma decompose_cases {rule : SequentRule} {subs : List Sequent} (hclosed : s.isClosed = false)
    (h : (rule, subs) ∈ s.decompose) :
    (∃ f ∈ s.succedent.toList, (s.dropRight f).splitRight? f = some (rule, subs)) ∨
      ∃ f ∈ s.antecedent.toList, (s.dropLeft f).splitLeft? f = some (rule, subs) := by
  rw [decompose, hclosed] at h
  simpa only [Bool.false_eq_true, if_false, List.mem_append, List.mem_filterMap] using h

/-- **Every rule is invertible**: a valuation refutes the sequent exactly when it refutes one of the
sequents it is taken apart into. -/
lemma decompose_refutes {rule : SequentRule} {subs : List Sequent}
    (hclosed : s.isClosed = false) (h : (rule, subs) ∈ s.decompose) :
    Refutes v s ↔ ∃ t ∈ subs, Refutes v t := by
  rcases decompose_cases hclosed h with ⟨f, hf, hsplit⟩ | ⟨f, hf, hsplit⟩
  · rw [refutes_dropRight hf, splitRight?_refutes hsplit]
  · rw [refutes_dropLeft hf, splitLeft?_refutes hsplit]

lemma decompose_valid {rule : SequentRule} {subs : List Sequent}
    (hclosed : s.isClosed = false) (h : (rule, subs) ∈ s.decompose) :
    s.Valid ↔ ∀ t ∈ subs, t.Valid := by
  simp only [valid_iff, decompose_refutes hclosed h, not_exists, not_and]
  exact ⟨fun hs t ht v => hs v t ht, fun hs v t ht => hs t ht v⟩

lemma decompose_connectives {rule : SequentRule} {subs : List Sequent}
    (hclosed : s.isClosed = false) (h : (rule, subs) ∈ s.decompose) (ht : t ∈ subs) :
    t.connectives < s.connectives := by
  rcases decompose_cases hclosed h with ⟨f, hf, hsplit⟩ | ⟨f, hf, hsplit⟩
  · have hlt := splitRight?_connectives hsplit ht
    have hle := connectives_dropRight hf
    omega
  · have hlt := splitLeft?_connectives hsplit ht
    have hle := connectives_dropLeft hf
    omega

/-! ## Sequents that cannot be taken apart -/

lemma splitRight?_eq_none_iff : s.splitRight? f = none ↔ ∃ x, f = .var x := by
  cases f <;> simp [splitRight?]

lemma splitLeft?_eq_none_iff : s.splitLeft? f = none ↔ ∃ x, f = .var x := by
  cases f <;> simp [splitLeft?]

/-- There is nothing to take apart exactly when only variables are left. -/
lemma decompose_eq_nil_iff (hclosed : s.isClosed = false) :
    s.decompose = [] ↔
      (∀ f ∈ s.antecedent.toList, ∃ x, f = .var x) ∧ ∀ f ∈ s.succedent.toList, ∃ x, f = .var x := by
  rw [decompose, hclosed]
  simp only [Bool.false_eq_true, if_false, List.append_eq_nil_iff, List.filterMap_eq_nil_iff,
    splitRight?_eq_none_iff, splitLeft?_eq_none_iff]
  exact and_comm

/-- **Taking apart keeps validity and loses connectives.**  Whichever formula of a sequent that is
not closed is taken apart, the sequent is valid exactly when all that it leads to are, and each of
these has fewer connectives, also where a part was there already or is added twice.  There is
nothing to take apart exactly when all formulas of the sequent are variables. -/
theorem decompose_invertible_decreasing (hclosed : s.isClosed = false) :
    (∀ rule subs, (rule, subs) ∈ s.decompose →
      (s.Valid ↔ ∀ t ∈ subs, t.Valid) ∧ ∀ t ∈ subs, t.connectives < s.connectives) ∧
    (s.decompose = [] ↔
      ∀ f ∈ s.antecedent.toList ++ s.succedent.toList, ∃ x, f = .var x) := by
  refine ⟨fun rule subs h => ?_, ?_⟩
  · exact ⟨decompose_valid hclosed h, fun t ht => decompose_connectives hclosed h ht⟩
  · rw [decompose_eq_nil_iff hclosed, List.forall_mem_append]

/-- Both sequents that an equivalence of two equal sides leads to are the same, and what is to be
added on the left is there already with its sides exchanged. -/
theorem decompose_invertible_decreasing_repeated :
    let both : Formula := .conj (.var "P") (.var "Q")
    let s : Sequent := ⟨.ofList [.conj (.var "Q") (.var "P")], .ofList [.iff both both]⟩
    let t : Sequent := ⟨.ofList [.conj (.var "Q") (.var "P")], .ofList [both]⟩
    s.isClosed = false ∧ (.iffRight, [t, t]) ∈ s.decompose ∧ (s.Valid ↔ t.Valid) ∧
      t.connectives < s.connectives ∧ s.decompose ≠ [] := by
  intro both s t
  have hclosed : s.isClosed = false := by decide
  have hway : (.iffRight, [t, t]) ∈ s.decompose := .head _
  obtain ⟨hways, -⟩ := decompose_invertible_decreasing hclosed
  obtain ⟨hvalid, hfewer⟩ := hways _ _ hway
  exact ⟨hclosed, hway, by simpa using hvalid, hfewer t List.mem_cons_self, List.ne_nil_of_mem hway⟩

/-- **The countermodel of an open leaf**: where a variable is true exactly when it stands on the
left, the right side is false because the sequent is not closed. -/
lemma exists_refutes_of_irreducible (hclosed : s.isClosed = false) (h : s.decompose = []) :
    ∃ v, Refutes v s := by
  obtain ⟨hleft, hright⟩ := (decompose_eq_nil_iff hclosed).1 h
  refine ⟨fun x => s.antecedent.contains (.var x), ?_, ?_⟩
  · intro f hf
    obtain ⟨x, rfl⟩ := hleft f hf
    exact FormulaSet.contains_of_mem hf
  · intro f hf
    obtain ⟨x, rfl⟩ := hright f hf
    by_contra hx
    obtain ⟨g, hg, hgx⟩ := OrderedSet.contains_iff.1 (Bool.not_eq_false _ ▸ hx)
    obtain ⟨y, rfl⟩ := hleft g hg
    have hyx : y = x := by simpa [Formula.alike] using hgx
    subst hyx
    have hboth : s.isClosed = true := List.any_eq_true.2 ⟨_, hg, FormulaSet.contains_of_mem hf⟩
    simp [hclosed] at hboth

/-! ## The search -/

/-- What the search proves is valid, on any fuel. -/
lemma valid_of_search {fuel : ℕ} {log : List Entry} (h : (s.search fuel log).1 = true) :
    s.Valid := by
  induction fuel generalizing s log with
  | zero => simp [search] at h
  | succ fuel ih =>
      rw [search] at h
      by_cases hclosed : s.isClosed = true
      · exact valid_iff.2 fun v => not_refutes_of_isClosed hclosed
      rw [if_neg hclosed] at h
      -- only success matters here, so nothing is asked of the log that failed ways leave behind
      refine (firstSuccess_attempt (P := fun _ => True) (Q := fun _ => s.Valid) ?_ trivial).1 h
      rintro ⟨rule, subs⟩ hway log -
      refine ⟨fun hsuccess => ?_, fun _ => trivial⟩
      have hall : (allSucceed (search fuel) subs log).1 = true := by
        split at hsuccess
        · rename_i log' heq
          rw [heq]
        · simp at hsuccess
      refine (decompose_valid (by simpa using hclosed) hway).2 ?_
      exact forall_of_allSucceed (fun t log ht => ih ht) hall

/-- A valid sequent is proved as soon as the fuel exceeds its connectives. -/
lemma search_of_valid {fuel : ℕ} (hfuel : s.connectives < fuel) (hs : s.Valid) (log : List Entry) :
    (s.search fuel log).1 = true := by
  induction fuel generalizing s log with
  | zero => omega
  | succ fuel ih =>
      rw [search]
      by_cases hclosed : s.isClosed = true
      · rw [if_pos hclosed]
      rw [if_neg hclosed]
      rw [Bool.not_eq_true] at hclosed
      cases hways : s.decompose with
      | nil =>
          obtain ⟨v, hv⟩ := exists_refutes_of_irreducible hclosed hways
          exact absurd hv (valid_iff.1 hs v)
      | cons way ways =>
          obtain ⟨rule, subs⟩ := way
          have hway : (rule, subs) ∈ s.decompose := by
            rw [hways]
            exact List.mem_cons_self
          refine firstSuccess_of_mem (a := (rule, subs)) List.mem_cons_self fun log => ?_
          have hall : (allSucceed (search fuel) subs log).1 = true := by
            refine allSucceed_of_forall fun t ht log => ih ?_ ?_ log
            · have := decompose_connectives hclosed hway ht
              omega
            · exact (decompose_valid hclosed hway).1 hs t ht
          split
          · rfl
          · rename_i log' heq
            simp [heq] at hall

/-- A sequent is proved within a depth of its connectives exactly if it is valid. -/
lemma prove_iff_valid {depth : Int} (h : (s.connectives : Int) ≤ depth) :
    (s.prove depth).1 = true ↔ s.Valid :=
  ⟨valid_of_search, fun hs => search_of_valid (by omega) hs []⟩

/-- The sequent of an entailment is valid exactly when the entailment holds. -/
lemma valid_ofEntailment {premises : List Formula} {conclusion : Formula} :
    (ofEntailment premises conclusion).Valid ↔ Entails premises conclusion := by
  refine forall_congr' fun v => ?_
  simp only [ofEntailment, OrderedSet.forall_ofList (Formula.respects_eval v true),
    OrderedSet.exists_ofList (Formula.respects_eval v true)]
  simp

/-- **The sequent search is a decision procedure.**  What it proves is valid, whatever the depth it
is allowed.  When the depth is at least the number of connectives of the sequent it proves exactly
the valid sequents, and so agrees with the truth table on the sequents of entailments. -/
theorem prove_decides :
    (∀ (s : Sequent) (depth : Int), (s.prove depth).1 = true → s.Valid) ∧
      (∀ (s : Sequent) (depth : Int), (s.connectives : Int) ≤ depth →
        ((s.prove depth).1 = true ↔ s.Valid)) ∧
      ∀ (premises : List Formula) (conclusion : Formula) (depth : Int),
        ((ofEntailment premises conclusion).connectives : Int) ≤ depth →
          ((ofEntailment premises conclusion).prove depth).1 =
            Formula.entails premises conclusion := by
  refine ⟨fun s depth => valid_of_search, fun s depth => prove_iff_valid,
    fun premises conclusion depth hdepth => ?_⟩
  rw [Bool.eq_iff_iff, prove_iff_valid hdepth, valid_ofEntailment, Formula.entails_iff]

/-! ## The formula of a sequent -/

/-- The formula of a sequent is false exactly where the sequent is refuted.  The sequent without
formulas is refuted everywhere, and its formula is a contradiction. -/
lemma eval_toFormula (s : Sequent) : s.toFormula.eval v = false ↔ Refutes v s := by
  rw [toFormula, Refutes]
  cases s.antecedent.toList with
  | nil =>
      cases s.succedent.toList with
      | nil => simp [Formula.join?, Formula.eval]
      | cons g gs => simp [Formula.join?, Formula.eval_foldl_disj]
  | cons f fs =>
      cases s.succedent.toList with
      | nil => simp [Formula.join?, Formula.eval, Formula.eval_foldl_conj]
      | cons g gs =>
          simp [Formula.join?, Formula.eval, Formula.eval_foldl_conj, Formula.eval_foldl_disj]

/-- A name that occurs in a sequent occurs in its formula. -/
lemma mem_names_toFormula {x : String} (hf : f ∈ s.antecedent.toList ++ s.succedent.toList)
    (hx : x ∈ f.names) : x ∈ s.toFormula.names := by
  have hnames : x ∈ (s.antecedent.toList ++ s.succedent.toList).flatMap Formula.names :=
    List.mem_flatMap.2 ⟨f, hf, hx⟩
  rw [toFormula]
  cases hleft : s.antecedent.toList with
  | nil =>
      cases hright : s.succedent.toList with
      | nil => simp [hleft, hright] at hnames
      | cons g gs => simpa [hleft, hright, Formula.join?, Formula.names_foldl] using hnames
  | cons g gs =>
      cases hright : s.succedent.toList with
      | nil => simpa [hleft, hright, Formula.join?, Formula.names, Formula.names_foldl] using hnames
      | cons h hs =>
          simpa [hleft, hright, Formula.join?, Formula.names, Formula.names_foldl] using hnames

/-- **A sequent says what its formula says.**  Under every valuation the formula is true exactly
when something on the left is false or something on the right is true, also if a side has one
formula or none.  Under an assignment of its names it can be evaluated, and so can the formulas of
the sequent, with values that are related in the same way.  So the truth table of the formula
decides what the search for a proof decides on a depth of the connectives of the sequent. -/
theorem toFormula_keeps_meaning (s : Sequent) :
    (∀ v : Valuation, s.toFormula.eval v = true ↔
      (∃ f ∈ s.antecedent.toList, f.eval v = false) ∨
        ∃ f ∈ s.succedent.toList, f.eval v = true) ∧
    (∀ a : Assignment, (∀ x ∈ s.toFormula.vars.toList, a.contains x = true) →
      ∃ value, s.toFormula.evaluate a = .ok value ∧
        (value = true ↔ (∃ f ∈ s.antecedent.toList, f.evaluate a = .ok false) ∨
          ∃ f ∈ s.succedent.toList, f.evaluate a = .ok true)) ∧
    ∀ depth : Int, (s.connectives : Int) ≤ depth →
      s.toFormula.isTautology = (s.prove depth).1 := by
  have hmeaning : ∀ v : Valuation, s.toFormula.eval v = true ↔
      (∃ f ∈ s.antecedent.toList, f.eval v = false) ∨
        ∃ f ∈ s.succedent.toList, f.eval v = true := by
    intro v
    rw [← Bool.not_eq_false, eval_toFormula, Refutes, not_and_or]
    simp only [not_forall, Bool.not_eq_true, Bool.not_eq_false, exists_prop]
  refine ⟨hmeaning, fun a ha => ?_, fun depth hdepth => ?_⟩
  · have hnames : ∀ x ∈ s.toFormula.names, a.contains x = true :=
      fun x hx => ha x (mem_nameSet_ofList.2 hx)
    have hmembers : ∀ f ∈ s.antecedent.toList ++ s.succedent.toList,
        f.evaluate a = .ok (f.eval (a.orElse false)) := fun f hf =>
      Formula.evaluate_eq_ok false fun x hx => hnames x (mem_names_toFormula hf hx)
    refine ⟨_, Formula.evaluate_eq_ok false hnames, (hmeaning _).trans (or_congr ?_ ?_)⟩
    · refine exists_congr fun f => and_congr_right fun hf => ?_
      rw [hmembers f (List.mem_append_left _ hf), Except.ok.injEq]
    · refine exists_congr fun f => and_congr_right fun hf => ?_
      rw [hmembers f (List.mem_append_right _ hf), Except.ok.injEq]
  · rw [Bool.eq_iff_iff, prove_iff_valid hdepth, Formula.isTautology_iff, valid_iff]
    refine forall_congr' fun v => ?_
    rw [← eval_toFormula, Bool.not_eq_false]

/-- The name that stands in the formula of the empty sequent may also be given: alone on the left it
is only negated. -/
theorem toFormula_keeps_meaning_reserved :
    let s : Sequent := ⟨.ofList [.var "_EMPTY_"], ∅⟩
    let a : Assignment := ⟨[("_EMPTY_", false)]⟩
    (∀ x ∈ s.toFormula.vars.toList, a.contains x = true) ∧ s.toFormula.evaluate a = .ok true ∧
      (s.connectives : Int) ≤ 0 ∧ s.toFormula.isTautology = (s.prove 0).1 := by
  intro s a
  have hnames : ∀ x ∈ s.toFormula.vars.toList, a.contains x = true := by decide
  have hdepth : (s.connectives : Int) ≤ 0 := by decide
  obtain ⟨-, hevaluate, hdecides⟩ := toFormula_keeps_meaning s
  obtain ⟨value, hvalue, hiff⟩ := hevaluate a hnames
  have htrue : value = true := hiff.2 (Or.inl ⟨_, List.mem_singleton_self _, rfl⟩)
  rw [htrue] at hvalue
  exact ⟨hnames, hvalue, hdepth, hdecides 0 hdepth⟩

end Sequent

end AnnealProver
