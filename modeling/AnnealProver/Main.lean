import AnnealProver.Command.GateBoard
import AnnealProver.Command.Labelled
import AnnealProver.Command.MakeData
import AnnealProver.Command.Prover
import AnnealProver.Command.Tollens

/-!
# The program

The first argument may name a command; without a name the prover is meant.  There is no sampler and
no network in this program, so sampling ends with a word on what to install.
-/

namespace AnnealProver.Command

/-- The options as they are listed for help. -/
def usage (specs : List OptionSpec) : String :=
  Text.printed ("options:" :: (helpOption :: specs).map fun o =>
    "  " ++ String.intercalate ", " o.names ++
      match o.kind with
      | .flag | .help => ""
      | .choice words => " \x7b" ++ String.intercalate "," words ++ "\x7d"
      | .word => " TEXT"
      | .whole => " N"
      | .real => " X")

/-- What is there without samplers and networks. -/
def emptyEnvironment : Environment :=
  { canSample := false, canPredict := false, model := .broken "no network" }

/-- A time in milliseconds in the unit that is asked for. -/
def elapsed (milliseconds : Nat) (unit : String) : String :=
  let time := Decimal.ofInt milliseconds
  Decimal.fixed 2 (if unit == "ms" then time else time / 1000)

/-- Prints what a command said. -/
def printConsole (specs : List OptionSpec) (milliseconds : Nat) (console : Console) : IO Unit := do
  for piece in console.out do
    IO.print (piece.text (elapsed milliseconds) (usage specs))
  IO.eprint (Text.printed console.err)

/-- Tells how options are given, and ends with the code. -/
def leave (specs : List OptionSpec) (exit : Exit) : IO UInt32 := do
  match exit with
  | .helped => IO.print (usage specs)
  | .rejected => IO.eprint (usage specs)
  return exit.code.toNat.toUInt32

/-- Runs a command and ends with its code. -/
def perform (specs : List OptionSpec) (run : Environment → List String → Ending × Console)
    (arguments : List String) : IO UInt32 := do
  let start ← IO.monoMsNow
  let (ending, console) := run emptyEnvironment arguments
  match ending with
  | .exit exit => leave specs exit
  | .code code =>
    printConsole specs ((← IO.monoMsNow) - start) console
    return (code.getD 0).toNat.toUInt32
  | .fault fault =>
    printConsole specs ((← IO.monoMsNow) - start) console
    IO.eprintln fault.message
    return 1

/-- Makes training problems and stores them. -/
def performMakeData (arguments : List String) : IO UInt32 := do
  match MakeData.run (fun seed count => MakeData.draws (mkStdGen seed.natAbs) count) arguments with
  | .error exit => leave MakeData.options exit
  | .ok (.error fault, _) =>
    IO.eprintln fault.message
    return 1
  | .ok (.ok product, console) =>
    IO.FS.writeFile product.path product.stored
    printConsole MakeData.options 0 console
    return 0

/-- Runs the command that the first argument names, or the prover. -/
def dispatch (arguments : List String) : IO UInt32 :=
  match arguments with
  | "gates" :: rest => perform GateBoard.options GateBoard.run rest
  | "labels" :: rest => perform Labelled.options Labelled.run rest
  | "guided" :: rest => perform Labelled.guidedOptions Labelled.runGuided rest
  | "make-data" :: rest => performMakeData rest
  | "tollens" :: _ => do
    IO.print (Text.printed Tollens.lines)
    return 0
  | _ => perform Prover.options Prover.run arguments

end AnnealProver.Command

/-- Runs the program. -/
def main (arguments : List String) : IO UInt32 :=
  AnnealProver.Command.dispatch arguments
