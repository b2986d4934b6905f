import AnnealProver.Proofs.Derivations
import AnnealProver.Proofs.Sequents

/-!
# The log of the sequent search is a derivation

The search hands one log through all its branches.  An entry is written when a sequent has been
proved, and it stays, also when the branch that it was proved for fails later or is cut off by the
depth.  So the log of a search is not a tree for the sequent in question but a list of everything
that was proved on the way.

It is a **derivation** nevertheless: each entry is for a closed sequent, or a rule leads from its
sequent to sequents that have entries before it.  The search only ever writes at the end
(`Logs.keeps`), so what an entry rests on is never lost, and a failed branch leaves a derivation
behind just as a successful one does (`search_logs`).  Read from the beginning, a derivation
has valid sequents only (`Derivation.valid`).
-/

namespace AnnealProver.Sequent

variable {s t : Sequent} {e : Entry} {log : List Entry}

/-! ## Derivations -/

/-- What justifies an entry: a formula on both sides, or a rule whose sequents have entries. -/
inductive Entry.Follows (earlier : List Entry) : Entry → Prop
  | closed {s : Sequent} {f : Formula} (hleft : s.antecedent.contains f = true)
      (hright : s.succedent.contains f = true) : Follows earlier ⟨.closed, s⟩
  | split {s : Sequent} {rule : SequentRule} {subs : List Sequent} (hrule : rule ≠ .closed)
      (hway : (rule, subs) ∈ s.decompose) (hsubs : ∀ t ∈ subs, ∃ e ∈ earlier, e.sequent = t) :
      Follows earlier ⟨rule, s⟩

/-- Every entry follows from the ones before it. -/
inductive Derivation : List Entry → Prop
  | nil : Derivation []
  | concat {log : List Entry} {e : Entry} (hlog : Derivation log) (he : e.Follows log) :
      Derivation (log ++ [e])

lemma Derivation.follows (h : Derivation log) {i : ℕ} (he : log[i]? = some e) :
    e.Follows (log.take i) := by
  induction h with
  | nil => simp at he
  | concat hlog hlast ih =>
      rcases getElem?_concat_cases he with ⟨hi, he⟩ | ⟨rfl, rfl⟩
      · rw [List.take_append_of_le_length hi.le]
        exact ih he
      · rwa [List.take_left]

/-- A closed sequent has a formula on both sides, and the other way round. -/
lemma isClosed_iff : s.isClosed = true ↔
    ∃ f, s.antecedent.contains f = true ∧ s.succedent.contains f = true := by
  constructor
  · intro h
    obtain ⟨f, hf, hright⟩ := List.any_eq_true.1 h
    exact ⟨f, FormulaSet.contains_of_mem hf, hright⟩
  · rintro ⟨f, hleft, hright⟩
    obtain ⟨g, hg, hgf⟩ := OrderedSet.contains_iff.1 hleft
    rw [← FormulaSet.contains_congr hgf] at hright
    exact List.any_eq_true.2 ⟨g, hg, hright⟩

/-- Among the ways to justify a sequent, that it is closed stands for the closed ones only. -/
lemma eq_closed_iff_of_mem_decompose {rule : SequentRule} {subs : List Sequent}
    (h : (rule, subs) ∈ s.decompose) : rule = .closed ↔ s.isClosed = true := by
  by_cases hclosed : s.isClosed = true
  · simp only [decompose, hclosed, if_true, List.mem_singleton, Prod.mk.injEq] at h
    simp [h.1, hclosed]
  · rw [Bool.not_eq_true] at hclosed
    have hsplit : rule ≠ .closed := by
      rintro rfl
      rcases decompose_cases hclosed h with ⟨f, -, hf⟩ | ⟨f, -, hf⟩
      · cases f <;> simp [splitRight?] at hf
      · cases f <;> simp [splitLeft?] at hf
    simp [hsplit, hclosed]

/-- **All that a derivation records is valid**, by induction along the log: a closed sequent is, and
a rule hands validity on from the sequents it leads to. -/
lemma Derivation.valid (h : Derivation log) : ∀ e ∈ log, e.sequent.Valid := by
  induction h with
  | nil => simp
  | concat hlog hlast ih =>
      intro e he
      rcases List.mem_append.1 he with he | he
      · exact ih e he
      rw [List.mem_singleton.1 he]
      cases hlast with
      | closed hleft hright =>
          have hclosed := isClosed_iff.2 ⟨_, hleft, hright⟩
          exact valid_iff.2 fun v => not_refutes_of_isClosed hclosed
      | @split s rule subs hrule hway hsubs =>
          have hopen : s.isClosed = false := by
            rwa [← Bool.not_eq_true, ← eq_closed_iff_of_mem_decompose hway]
          refine (decompose_valid hopen hway).2 ?_
          intro t ht
          obtain ⟨e', he', rfl⟩ := hsubs t ht
          exact ih e' he'

/-! ## What the search writes -/

/-- What an attempt to prove a sequent does to the log: it writes at the end, what it leaves behind
is a derivation, and success shows in the last entry. -/
structure Logs (s : Sequent) (log : List Entry) (outcome : Bool × List Entry) : Prop where
  derivation : Derivation outcome.2
  keeps : log <+: outcome.2
  last : outcome.1 = true → ∃ e, outcome.2.getLast? = some e ∧ e.sequent = s

/-- Success with one more entry, written behind a derivation. -/
lemma Logs.write {log' : List Entry} {rule : SequentRule} (hlog' : Derivation log')
    (hkeeps : log <+: log') (hrule : Entry.Follows log' ⟨rule, s⟩) :
    s.Logs log (true, log' ++ [⟨rule, s⟩]) where
  derivation := hlog'.concat hrule
  keeps := hkeeps.trans (List.prefix_append _ _)
  last := by simp

/-- Attempts of which each failure leaves a derivation behind. -/
lemma Logs.of_attempt {outcome : Bool × List Entry}
    (h : Attempt (fun log' => Derivation log' ∧ log <+: log') (fun log' => s.Logs log (true, log'))
      outcome) : s.Logs log outcome := by
  obtain ⟨success, log'⟩ := outcome
  cases success with
  | true => exact h.1 rfl
  | false => exact ⟨(h.2 rfl).1, (h.2 rfl).2, by simp⟩

/-- Sequents that are proved one after the other, as long as that succeeds: if all of them are, then
all have entries in the end, since later ones take none away. -/
lemma allSucceed_logs {step : Sequent → List Entry → Bool × List Entry} {subs : List Sequent}
    (hstep : ∀ (t : Sequent) (log : List Entry), Derivation log → t.Logs log (step t log))
    (hlog : Derivation log) :
    Derivation (allSucceed step subs log).2 ∧ log <+: (allSucceed step subs log).2 ∧
      ((allSucceed step subs log).1 = true →
        ∀ t ∈ subs, ∃ e ∈ (allSucceed step subs log).2, e.sequent = t) := by
  induction subs generalizing log with
  | nil => exact ⟨hlog, List.prefix_rfl, by simp⟩
  | cons t subs ih =>
      have hhead := hstep t log hlog
      rw [allSucceed]
      split
      · rename_i log' heq
        rw [heq] at hhead
        obtain ⟨hderivation, hkeeps, hall⟩ := ih hhead.derivation
        refine ⟨hderivation, hhead.keeps.trans hkeeps, fun hsuccess => ?_⟩
        obtain ⟨e, hlast, he⟩ := hhead.last rfl
        have hmem := hkeeps.subset (List.mem_of_getLast? hlast)
        exact List.forall_mem_cons.2 ⟨⟨e, hmem, he⟩, hall hsuccess⟩
      · rename_i log' heq
        rw [heq] at hhead
        exact ⟨hhead.derivation, hhead.keeps, by simp⟩

/-- The search continues a derivation as one, whether it succeeds, fails or is cut off. -/
lemma search_logs {fuel : ℕ} (hlog : Derivation log) : s.Logs log (s.search fuel log) := by
  induction fuel generalizing s log with
  | zero => exact ⟨hlog, List.prefix_rfl, by simp [search]⟩
  | succ fuel ih =>
      rw [search]
      by_cases hclosed : s.isClosed = true
      · rw [if_pos hclosed]
        obtain ⟨f, hleft, hright⟩ := isClosed_iff.1 hclosed
        exact .write hlog List.prefix_rfl (.closed hleft hright)
      rw [if_neg hclosed]
      -- a way that fails leaves its entries behind, so the next one starts from a longer log
      refine .of_attempt (firstSuccess_attempt ?_ ⟨hlog, List.prefix_rfl⟩)
      rintro ⟨rule, subs⟩ hway log' ⟨hlog', hkeeps⟩
      have hrule : rule ≠ .closed := fun h => hclosed ((eq_closed_iff_of_mem_decompose hway).1 h)
      obtain ⟨hderivation, hkeeps', hall⟩ := allSucceed_logs (fun t log => ih) hlog'
      split
      · rename_i log'' heq
        rw [heq] at hderivation hkeeps' hall
        refine ⟨fun _ => ?_, by simp⟩
        exact .write hderivation (hkeeps.trans hkeeps') (.split hrule hway (hall rfl))
      · rename_i log'' heq
        rw [heq] at hderivation hkeeps'
        exact ⟨by simp, fun _ => ⟨hderivation, hkeeps.trans hkeeps'⟩⟩

/-- **The log of the sequent search is a derivation.**  For every sequent and every depth, whether
the search succeeds or fails, each entry is for a sequent with a formula on both sides, or its rule
takes its sequent apart into sequents that all have entries before it.  Hence every sequent in the
log is valid, also one from a branch that failed later; and after a success the last entry is for
the sequent that was to be proved. -/
theorem prove_logs_derivation (s : Sequent) (depth : ℤ) :
    let log := (s.prove depth).2
    (∀ (i : ℕ) (e : Entry), log[i]? = some e → e.Follows (log.take i)) ∧
      (∀ e ∈ log, e.sequent.Valid) ∧
      ((s.prove depth).1 = true → ∃ e, log.getLast? = some e ∧ e.sequent = s) := by
  intro log
  have hlogs : s.Logs [] (s.prove depth) := search_logs .nil
  exact ⟨fun i e => hlogs.derivation.follows, hlogs.derivation.valid, hlogs.last⟩

/-- The left half of `P ⊢ P ∧ Q` is proved before the right half fails, and its entry stays. -/
example : let p := Formula.var "P"
    let q := Formula.var "Q"
    ((ofEntailment [p] (.conj p q)).prove 100).1 = false ∧
      ((ofEntailment [p] (.conj p q)).prove 100).2.map Entry.text = ["公理: P ⊢ P"] := by
  decide +kernel

end AnnealProver.Sequent
