import AnnealProver.Number
import AnnealProver.Table

/-!
# Samples

A **sample** gives whole numbers to bits, and comes with its energy.  Samplers hand samples back in
one of two forms: as a matrix with the names of its columns, or as a list of states of which only
the named ones can be used.  Values are cut to whole numbers.

Energies are of any ordered type; the best sample is the first one of lowest energy.
-/

namespace AnnealProver

/-- Whole numbers for bits. -/
abbrev Sample := NameTable Int

/-- The value of a bit; zero if it has none. -/
def Sample.value (s : Sample) (name : String) : Int :=
  s.getD name 0

/-- A sample with its energy. -/
structure Row (ε : Type) where
  sample : Sample
  energy : ε

section

variable {ε : Type}

/-- Gives the values of one line of a matrix to the columns, if it is long enough. -/
def Sample.ofLine? : List String → List Number → Option Sample
  | [], _ => some ∅
  | names, values =>
    if values.length < names.length then none
    else some (.ofList ((names.zip values).map fun (x, v) => (x, v.truncate)))

/-- Samples as the lines of a matrix. -/
structure Matrix (ε : Type) where
  columns : List String := []
  lines : List (List Number) := []
  energies : List ε := []

/-- The samples with their energies; a line that is too short spoils all. -/
def Matrix.rows? (m : Matrix ε) : Option (List (Row ε)) :=
  (m.lines.zip m.energies).mapM fun (line, energy) =>
    (Sample.ofLine? m.columns line).map fun sample => ⟨sample, energy⟩

/-- The state of a sampler, with or without names. -/
inductive State where
  | named (values : NameTable Number)
  | unnamed

/-- Samples as states; either list may be missing. -/
structure States (ε : Type) where
  states : Option (List State) := none
  energies : Option (List ε) := none

/-- The named states with their energies, if both lists are there. -/
def States.rows? (s : States ε) : Option (List (Row ε)) :=
  match s.states, s.energies with
  | some states, some energies =>
    some ((states.zip energies).filterMap fun
      | (.named values, energy) =>
        some ⟨⟨values.entries.map fun (x, v) => (x, v.truncate)⟩, energy⟩
      | (.unnamed, _) => none)
  | _, _ => none

variable [LT ε] [DecidableLT ε]

/-- The place and the value of the first lowest energy, given the lowest one so far. -/
def lowestFrom (place : Nat) (energy : ε) : (next : Nat) → List ε → Nat × ε
  | _, [] => (place, energy)
  | next, e :: rest =>
    if e < energy then lowestFrom next e (next + 1) rest
    else lowestFrom place energy (next + 1) rest

/-- The place and the value of the first lowest energy. -/
def lowest? : List ε → Option (Nat × ε)
  | [] => none
  | e :: rest => some (lowestFrom 0 e 1 rest)

/-- The first row of lowest energy. -/
def bestRow? (rows : List (Row ε)) : Option (Row ε) :=
  (lowest? (rows.map (·.energy))).bind fun (place, _) => rows[place]?

end

end AnnealProver
