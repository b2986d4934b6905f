import AnnealProver.Command.Options
import AnnealProver.Energy.Basic
import AnnealProver.Energy.Equation
import AnnealProver.Learning.Predictor
import AnnealProver.Sampling.Backend

/-!
# Running a command

A command reads its options, talks to a **console** and ends with an exit code, or with a fault that
nobody handles.  What it needs from outside is its **environment**: which samplers are installed,
what they answer, how energies compile and what a network says.

The console keeps what is printed, what the samplers were called with, and the energies that were
compiled.  The time a command takes is not known here; it is left open in the printed lines.
-/

namespace AnnealProver.Command

/-- A piece of printed text. -/
inductive Printed where
  | line (text : String)
  /-- A line that tells how long something took. -/
  | timed (unit : String)
  /-- The help text. -/
  | help

/-- The text with the time, in the unit that is asked for, and the help text filled in. -/
def Printed.text (time : String → String) (help : String) : Printed → String
  | line text => text ++ "\n"
  | timed unit => "耗时: " ++ time unit ++ " " ++ unit ++ "\n"
  | .help => help

/-- What a command does besides computing. -/
structure Console where
  out : List Printed := []
  err : List String := []
  calls : List (List (String × Setting)) := []
  energies : List (Energy Number) := []

/-- What can go wrong. -/
inductive Fault where
  | formula (failure : ParseFailure)
  | value (message : String)
  | notInstalled (message : String)
  /-- A package that is asked for without care is missing. -/
  | noPackage (message : String)
  /-- A list is too short. -/
  | outOfRange

/-- What is said of it. -/
def Fault.message : Fault → String
  | formula failure => failure.message
  | value message => message
  | notInstalled message => message
  | noPackage message => message
  | outOfRange => "list index out of range"

/-- What a command needs from outside. -/
structure Environment where
  /-- The packages that are installed. -/
  installed : List String := []
  compiled : Compiled := {}
  reply : Reply Float := {}
  /-- What stands for the penalty of the gates while it is open. -/
  gatePenalty : Number := .whole 1
  network : Weights := ∅
  model : ModelFile := .absent
  canSample : Bool := true
  canPredict : Bool := true

/-- A computation that uses the console and may end with a fault. -/
abbrev Run := ExceptT Fault (StateM Console)

/-- How a command ends. -/
inductive Ending where
  /-- Options were not read. -/
  | exit (exit : Exit)
  /-- The command returned a code, or nothing. -/
  | code (code : Option Int)
  | fault (fault : Fault)

/-- Prints lines. -/
def say (rows : List String) : Run Unit :=
  modify fun c => { c with out := c.out ++ rows.map .line }

/-- Prints a line that tells how long something took. -/
def sayTime (unit : String) : Run Unit :=
  modify fun c => { c with out := c.out ++ [.timed unit] }

/-- Prints the help text. -/
def sayHelp : Run Unit :=
  modify fun c => { c with out := c.out ++ [.help] }

/-- Prints lines on the error channel. -/
def complain (rows : List String) : Run Unit :=
  modify fun c => { c with err := c.err ++ rows }

/-- Compiles an energy. -/
def compile (energy : Energy Number) : Run Unit :=
  modify fun c => { c with energies := c.energies ++ [energy] }

/-- Calls a sampler. -/
def callWith (settings : List (String × Setting)) : Run Unit :=
  modify fun c => { c with calls := c.calls ++ [settings] }

/-- Fails if there is nothing. -/
def demand {α : Type} (fault : Fault) : Option α → Run α
  | some a => pure a
  | none => throw fault

/-- Parses formulas. -/
def parseAll (d : Dialect) (texts : List String) : Run (List Formula) :=
  match Formula.parseAll d texts with
  | .ok fs => pure fs
  | .error failure => throw (.formula failure)

/-- Parses a formula. -/
def parseOne (d : Dialect) (text : String) : Run Formula :=
  match Formula.parse d text with
  | .ok f => pure f
  | .error failure => throw (.formula failure)

/-- Makes sure that a sampler is known and installed. -/
def openSampler (env : Environment) (d : Dialect) (name : String) : Run Sampler := do
  let sampler ← demand (.value (Sampler.unknown d name)) (Sampler.ofName? d name)
  if env.installed.contains sampler.package then return sampler
  else if d == .plain && sampler == .neal then throw (.noPackage (Sampler.missing d sampler))
  else throw (.notInstalled (Sampler.missing d sampler))

/-- Asks a sampler for rows. -/
def sampleRows (env : Environment) (sampler : Sampler) (reads : Int) : Run (List (Row Float)) := do
  callWith (plainCall reads)
  match sampler with
  | .neal => demand .outOfRange env.reply.matrix.rows?
  | _ => demand (.value States.malformed) env.reply.states.rows?

/-- The best of rows. -/
def bestRow (d : Dialect) (rows : List (Row Float)) : Run (Row Float) :=
  demand (.value (noRows d)) (bestRow? rows)

/-- Runs a command with options. -/
def runWith (specs : List OptionSpec) (command : Values → Run (Option Int))
    (arguments : List String) : Ending × Console :=
  match readOptions specs arguments with
  | .error exit => (.exit exit, {})
  | .ok values =>
    match (command values).run.run {} with
    | (.ok code, console) => (.code code, console)
    | (.error fault, console) => (.fault fault, console)

/-- A title between two bars, moved to the right. -/
def title (indent : Nat) (text : String) : List String :=
  let bar := Text.repeated 70 "="
  [bar, Text.repeated indent " " ++ text, bar, ""]

end AnnealProver.Command
