import AnnealProver.Command.Console
import AnnealProver.Energy.Gate

/-!
# The command line of the gate board

The axioms and the goal are only parsed; the board is the same for all of them.  The goal chooses
the gate that is looked at in the best sample.
-/

namespace AnnealProver.Command

/-- A sample as names with values between braces. -/
def sampleText (s : Sample) : String :=
  let entries := s.entries.map fun (x, v) => s!"{Text.quoted x}: {v}"
  "\x7b" ++ String.intercalate ", " entries ++ "\x7d"

namespace GateBoard

/-- The options. -/
def options : List OptionSpec :=
  [⟨["--axioms"], .word, true⟩, ⟨["--goal"], .word, true⟩,
   ⟨["--backend"], .choice ["neal", "openjij"], false⟩, ⟨["--reads"], .whole, false⟩,
   ⟨["--penalty"], .real, false⟩]

/-- A character as a capital, as far as the goals of the board are concerned: besides the small
Latin letters only the dotless i has a Latin capital among theirs. -/
def capital (c : Char) : Char :=
  if c == 'ı' then 'I' else c.toUpper

/-- A goal in capitals and without spaces. -/
def goalWord (goal : String) : String :=
  String.ofList ((goal.toList.filter (· != ' ')).map capital)

/-- Looks at the best sample. -/
def command (env : Environment) (v : Values) : Run (Option Int) := do
  let goal := Text.trim (v.word "--goal" "")
  let reads := v.whole "--reads" 50
  let parsed := do
    let _ ← Formula.parseAll .plain (Text.fields ";" (v.word "--axioms" ""))
    Formula.parse .plain goal
  match parsed with
  | .error failure =>
    say ["Parse error: " ++ failure.message]
    return some 2
  | .ok _ =>
    compile (BoardGate.boardEnergy env.gatePenalty)
    let sampler ← openSampler env .plain (v.word "--backend" "neal")
    say [s!"Using backend: {sampler.name} | num_reads={reads}"]
    let best ← bestRow .plain (← sampleRows env sampler reads)
    let gate := BoardGate.ofGoal (goalWord goal)
    let holds := gate.gate.holds best.sample.value
    say ["lowest_energy_assignment: " ++ sampleText best.sample,
      "energy: " ++ Decimal.shortestText best.energy,
      "provable: " ++ if holds then "True" else "False"]
    if holds then say ["proof_path: " ++ gate.path]
    return none

/-- Runs the command. -/
def run (env : Environment) (arguments : List String) : Ending × Console :=
  runWith options (command env) arguments

end GateBoard

end AnnealProver.Command
