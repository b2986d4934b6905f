import AnnealProver.Command.Prover
import AnnealProver.Proofs.Readings
import AnnealProver.Proofs.TruthTable

/-!
# Verdicts of the command line

The command proves by sampling or decides entailment, and says in its exit code what came out.  This
file follows the exit code back to what it is about.

**Returning.**  A computation of a command prints, calls samplers and may fail on the way; `Returns`
only says which results it can have.  What is done for the console alone drops out
(`Returns.of_after`, `Returns.of_ite`), so a result is traced back step by step.

**Sampling.**  The exit code zero comes from a decoded reply in which the proof is said to hold
(`exists_decoded_of_sampling`), that is, from a loose reading of the axioms and the goal.  On the
other side, each such reading is the answer of some sampler (`answering_exit`).
-/

namespace AnnealProver.Command

/-! ## What a computation can return -/

variable {α β : Type} {x : Run α} {a b : α} {fault : Fault}

/-- Some console lets the computation end with the result. -/
def Returns (x : Run α) (a : α) : Prop :=
  ∃ c, (x.run.run c).1 = .ok a

namespace Returns

lemma of_bind {f : α → Run β} {b : β} (h : Returns (x >>= f) b) :
    ∃ a, Returns x a ∧ Returns (f a) b := by
  obtain ⟨c, h⟩ := h
  rw [ExceptT.run_bind, StateT.run_bind] at h
  cases hx : x.run.run c with
  | mk result c' =>
      rw [hx] at h
      cases result with
      | ok a => exact ⟨a, ⟨c, by rw [hx]⟩, c', h⟩
      | error fault => cases h

lemma of_after {y : Run β} (h : Returns (y >>= fun _ => x) a) : Returns x a := by
  obtain ⟨-, -, h⟩ := h.of_bind
  exact h

/-- Something may be done first. -/
lemma of_ite {p : Prop} [Decidable p] {y : Run α} (h : Returns (if p then y else x) a)
    (hy : Returns y a → Returns x a) : Returns x a := by
  split_ifs at h
  · exact hy h
  · exact h

lemma of_pure (h : Returns (pure a) b) : a = b := by
  obtain ⟨c, h⟩ := h
  exact Except.ok.inj h

lemma not_throw : ¬ Returns (throw fault) a := by
  rintro ⟨c, h⟩
  cases h

lemma of_tryCatch {handle : Fault → Run α} (h : Returns (tryCatch x handle) a) :
    Returns x a ∨ ∃ fault, Returns (handle fault) a := by
  obtain ⟨c, h⟩ := h
  rw [ExceptT.run_tryCatch, StateT.run_bind] at h
  cases hx : x.run.run c with
  | mk result c' =>
      rw [hx] at h
      cases result with
      | ok b => exact Or.inl ⟨c, by rw [hx]; exact h⟩
      | error fault => exact Or.inr ⟨fault, c', h⟩

lemma of_demand {o : Option α} (h : Returns (demand fault o) a) : o = some a := by
  cases o with
  | none => exact absurd h not_throw
  | some b => rw [of_pure h]

lemma of_parseAll {d : Dialect} {texts : List String} {fs : List Formula}
    (h : Returns (parseAll d texts) fs) : Formula.parseAll d texts = .ok fs := by
  rw [parseAll] at h
  split at h
  next gs hgs => rw [hgs, of_pure h]
  next => exact absurd h not_throw

lemma of_parseOne {d : Dialect} {text : String} {f : Formula} (h : Returns (parseOne d text) f) :
    Formula.parse d text = .ok f := by
  rw [parseOne] at h
  split at h
  next g hg => rw [hg, of_pure h]
  next => exact absurd h not_throw

end Returns

lemma parseAll_of_ok {d : Dialect} {texts : List String} {fs : List Formula}
    (h : Formula.parseAll d texts = .ok fs) : parseAll d texts = pure fs := by
  rw [parseAll, h]

lemma parseOne_of_ok {d : Dialect} {text : String} {f : Formula}
    (h : Formula.parse d text = .ok f) : parseOne d text = pure f := by
  rw [parseOne, h]

/-- Every sample that the samplers answer with has its values in `A`. -/
def Environment.AnswersWithin (A : Set ℤ) (env : Environment) : Prop :=
  ∀ sampler reads set, Sampler.sampleSet? sampler reads env.reply = some set →
    ∀ s ∈ set.samples, s.Within A

namespace Prover

open Returns

variable {env : Environment} {v : Values} {texts : List String} {text : String}
  {axioms : List Formula} {goal : Formula}

lemma sampling_of_proveGoal (h : Returns (proveGoal env v "qubo" texts text) (some 0)) :
    Returns (proveBySampling env v texts text) true := by
  unfold proveGoal at h
  rcases h.of_tryCatch with h | ⟨fault, h⟩
  · obtain ⟨success, hsuccess, h⟩ := h.of_bind
    replace h := h.of_ite fun h => h.of_after.of_after
    cases success with
    | true => exact hsuccess
    | false => cases h.of_pure
  · -- a fault that is caught ends with the exit code two
    cases h.of_after.of_pure

/-- An environment in which the exact sampler answers with the sample. -/
def answering (s : Sample) : Environment where
  installed := [Sampler.exact.package]
  reply := { best := some ⟨s, 0⟩ }

lemma answering_within {A : Set ℤ} {s : Sample} (hs : s.Within A) :
    (answering s).AnswersWithin A := by
  intro sampler reads set hset u hu
  cases sampler with
  | neal =>
      obtain rfl := Option.some.inj hset
      cases hu
  | openjij =>
      obtain rfl := Option.some.inj hset
      cases hu
  | exact =>
      obtain rfl := Option.some.inj hset
      obtain rfl := List.mem_singleton.1 hu
      exact hs

section

variable (haxioms : Formula.parseAll .full texts = .ok axioms)
  (hgoal : Formula.parse .full text = .ok goal)

include haxioms hgoal

lemma eq_of_build {weights : Weights} {p : Problem}
    (h : Returns (build env v weights texts text) p) : p = Problem.ofFormulas axioms goal := by
  unfold build at h
  replace h := h.of_ite of_after
  obtain ⟨fs, hfs, h⟩ := h.of_bind
  obtain ⟨f, hf, h⟩ := h.of_bind
  replace h := h.of_after.of_ite of_after
  obtain rfl := h.of_pure
  obtain rfl := Except.ok.inj (haxioms.symm.trans hfs.of_parseAll)
  obtain rfl := Except.ok.inj (hgoal.symm.trans hf.of_parseOne)
  rfl

lemma exists_decoded_of_sampling (h : Returns (proveBySampling env v texts text) true) :
    ∃ sampler reads set d, Sampler.sampleSet? sampler reads env.reply = some set ∧
      (Problem.ofFormulas axioms goal).decode? set.samples set.energies = some d ∧
      d.proofHolds = true := by
  unfold proveBySampling at h
  split at h
  · cases h.of_after.of_pure
  · obtain ⟨weights, -, h⟩ := h.of_bind
    obtain ⟨p, hp, h⟩ := h.of_bind
    obtain rfl := eq_of_build haxioms hgoal hp
    obtain ⟨sampler, -, h⟩ := (h.of_ite of_after).of_after.of_bind
    obtain ⟨set, hset, h⟩ := h.of_after.of_bind
    obtain ⟨d, hd, h⟩ := h.of_bind
    exact ⟨sampler, _, set, d, hset.of_demand, hd.of_demand, h.of_after.of_pure⟩

/-- In the environment that answers with a sample, the exit code says whether it is accepted. -/
lemma answering_exit (s : Sample) (c : Console) :
    ∃ d, (Problem.ofFormulas axioms goal).decode? [s] [(0 : Float)] = some d ∧
      ((proveGoal (answering s) ⟨[("--backend", .word Sampler.exact.name)]⟩ "qubo" texts
        text).run.run c).1 = .ok (some (if d.proofHolds then 0 else 1)) := by
  refine ⟨_, Problem.decode?_singleton _ s 0, ?_⟩
  simp only [proveGoal, proveBySampling, build, parseAll_of_ok haxioms, parseOne_of_ok hgoal,
    pure_bind]
  rfl

lemma decideEntailment_exit (c : Console) :
    ((decideEntailment texts text).run.run c).1 =
      .ok (some (if Formula.entails axioms goal then 0 else 1)) := by
  simp only [decideEntailment, parseAll_of_ok haxioms, parseOne_of_ok hgoal, pure_bind]
  split_ifs <;> rfl

/-- Deciding entailment never fails, and says no exactly where there is none. -/
lemma returns_one_iff :
    Returns (decideEntailment texts text) (some 1) ↔ ¬ Entails axioms goal := by
  have hconsole : Nonempty Console := ⟨{}⟩
  simp only [Returns, decideEntailment_exit haxioms hgoal, exists_const, ← Formula.entails_iff]
  cases Formula.entails axioms goal <;> simp

end

variable {A : Set ℤ}

/-- **What success by sampling is worth.**  Whatever the samplers answer, it can be trusted exactly
where the axioms entail the goal anyway or cannot be read as ones together with it.  They can be
read so wherever they can be true together. -/
theorem sampling_trusted_iff (haxioms : Formula.parseAll .full texts = .ok axioms)
    (hgoal : Formula.parse .full text = .ok goal)
    (hapart : (Problem.ofFormulas axioms goal).encoder.Apart (axioms ++ [goal])) (hzero : 0 ∈ A)
    (hflip : ∀ n ∈ A, 1 - n ∈ A) :
    ((∀ samples (energies : List Float) d, (∀ s ∈ samples, s.Within A) →
        (Problem.ofFormulas axioms goal).decode? samples energies = some d →
        d.proofHolds = true → Entails axioms goal) ↔
      Entails axioms goal ∨ ¬ Readable A (axioms ++ [goal])) ∧
    ((∀ env v, Environment.AnswersWithin A env →
        Returns (proveGoal env v "qubo" texts text) (some 0) →
        ¬ Returns (decideEntailment texts text) (some 1)) ↔
      Entails axioms goal ∨ ¬ Readable A (axioms ++ [goal])) ∧
    ((∃ v : Valuation, ∀ f ∈ axioms ++ [goal], f.eval v = true) →
      Readable A (axioms ++ [goal])) := by
  have hsample := fun h : Readable A (axioms ++ [goal]) =>
    Problem.exists_decoded_of_readable hapart h (0 : Float)
  rw [returns_one_iff haxioms hgoal, not_not]
  refine ⟨?_, ?_, fun ⟨v, hv⟩ => readable_of_model hzero hflip hv⟩
  · constructor
    · intro htrusted
      by_cases hread : Readable A (axioms ++ [goal])
      · obtain ⟨s, d, hs, hd, hholds⟩ := hsample hread
        exact Or.inl (htrusted [s] [0] d (List.forall_mem_singleton.2 hs) hd hholds)
      · exact Or.inr hread
    · rintro (hentails | hunreadable) samples energies d hA hd hholds
      · exact hentails
      · exact absurd (Problem.readable_of_decoded hzero hflip hA hd hholds) hunreadable
  · constructor
    · intro htrusted
      by_cases hread : Readable A (axioms ++ [goal])
      · obtain ⟨s, d, hs, hd, hholds⟩ := hsample hread
        obtain ⟨d', hd', hexit⟩ := answering_exit haxioms hgoal s {}
        obtain rfl := Option.some.inj (hd.symm.trans hd')
        rw [hholds, if_pos rfl] at hexit
        exact Or.inl (htrusted _ _ (answering_within hs) ⟨_, hexit⟩)
      · exact Or.inr hread
    · rintro (hentails | hunreadable) env v hA hexit
      · exact hentails
      · obtain ⟨sampler, reads, set, d, hset, hd, hholds⟩ :=
          exists_decoded_of_sampling haxioms hgoal (sampling_of_proveGoal hexit)
        exact absurd (Problem.readable_of_decoded hzero hflip (hA _ _ _ hset) hd hholds) hunreadable

/-- From `P ∨ Q` and `¬P` follows `Q`, and yet `¬Q` passes for proved on some zero-one sample, in
which the disjunction is one and both of its sides are zero. -/
theorem sampling_trusted_iff_disjunction :
    let axioms : List Formula := [.disj (.var "P") (.var "Q"), .neg (.var "P")]
    let goal : Formula := .neg (.var "Q")
    Formula.parseAll .full ["P | Q", "~P"] = .ok axioms ∧ Formula.parse .full "~Q" = .ok goal ∧
      (Problem.ofFormulas axioms goal).encoder.Apart (axioms ++ [goal]) ∧
      ∃ env v, Environment.AnswersWithin {0, 1} env ∧
        Returns (proveGoal env v "qubo" ["P | Q", "~P"] "~Q") (some 0) ∧
        Returns (decideEntailment ["P | Q", "~P"] "~Q") (some 1) := by
  intro axioms goal
  have haxioms : Formula.parseAll .full ["P | Q", "~P"] = .ok axioms := rfl
  have hgoal : Formula.parse .full "~Q" = .ok goal := rfl
  have hapart : (Problem.ofFormulas axioms goal).encoder.Apart (axioms ++ [goal]) := by decide
  have hzero : (0 : ℤ) ∈ ({0, 1} : Set ℤ) := by simp
  have hflip : ∀ n ∈ ({0, 1} : Set ℤ), 1 - n ∈ ({0, 1} : Set ℤ) := by simp
  have hread : Readable {0, 1} (axioms ++ [goal]) := by
    let s : Sample := ⟨[("Or_P_Q_1", 1), ("P", 0), ("Q", 0), ("Not_P_2", 1), ("Not_Q_3", 1)]⟩
    have hs : s.Binary := by decide
    have hd : (Problem.ofFormulas axioms goal).decode? [s] [0] = some _ := rfl
    exact Problem.readable_of_decoded hzero hflip (List.forall_mem_singleton.2 hs) hd rfl
  have hentails : ¬ Entails axioms goal := by
    intro h
    have := h (fun n => n == "Q") (by decide)
    cases this
  refine ⟨haxioms, hgoal, hapart, ?_⟩
  have huntrusted := (sampling_trusted_iff haxioms hgoal hapart hzero hflip).2.1.not.2
    (not_or.2 ⟨hentails, not_not.2 hread⟩)
  by_contra hnone
  exact huntrusted fun env v hA hexit hone => hnone ⟨env, v, hA, hexit, hone⟩

/-- `Q` does not follow from `P`, but where a sampler finds both to be one the command says that it
is proved; asked for entailment, it says that there is none. -/
theorem sampling_contradicts_entailment :
    let env : Environment :=
      { installed := ["neal"]
        reply := { matrix := { columns := ["P", "Q"], lines := [[.whole 1, .whole 1]],
                               energies := [0] } } }
    let asked : List (String × Value) := [("--axioms", .word "P"), ("--goal", .word "Q")]
    ((command env ⟨asked⟩).run.run {}).1 = .ok (some 0) ∧
      ((command env ⟨("--check-entailment", .flag) :: asked⟩).run.run {}).1 = .ok (some 1) := by
  refine ⟨by rfl, ?_⟩
  have haxioms : Formula.parseAll .full ["P"] = .ok [.var "P"] := rfl
  have hgoal : Formula.parse .full "Q" = .ok (.var "Q") := rfl
  have hentails : Formula.entails [.var "P"] (.var "Q") = false := by
    rw [← Bool.not_eq_true, Formula.entails_iff]
    intro h
    cases h (fun n => n == "P") (by decide)
  have hexit := decideEntailment_exit haxioms hgoal
  rw [hentails] at hexit
  exact hexit _

end Prover

end AnnealProver.Command
