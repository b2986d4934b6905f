import AnnealProver.Formula.Parser
import AnnealProver.Sampling.Sample
import AnnealProver.Scalar

/-!
# Samplers

A **sampler** is one of three programs that look for a point of low energy.  It may not be
installed.  The full dialect knows settings for its samplers and brings their replies into one form;
the others only say how many reads they want.  Each dialect has its own words for a sampler that is
unknown or missing.
-/

namespace AnnealProver

/-- The programs that can be asked. -/
inductive Sampler where
  | neal
  | openjij
  | exact
deriving DecidableEq

namespace Sampler

/-- The name under which it is asked for. -/
def name : Sampler → String
  | neal => "neal"
  | openjij => "openjij"
  | exact => "exact"

/-- What has to be installed for it. -/
def package : Sampler → String
  | neal => "neal"
  | openjij => "openjij"
  | exact => "dimod"

/-- The samplers that a dialect knows. -/
def known : Dialect → List Sampler
  | .full => [neal, openjij, exact]
  | .plain | .located => [neal, openjij]

/-- The sampler of a name. -/
def ofName? (d : Dialect) (name : String) : Option Sampler :=
  (known d).find? fun s => s.name == name

/-- What is said of a sampler that a dialect does not know. -/
def unknown (d : Dialect) (name : String) : String :=
  let names := String.intercalate ", " ((known d).map Sampler.name)
  match d with
  | .full => s!"未知的后端: {name}。可用后端: {names}"
  | .located => s!"Unknown backend: {name}. Available backends: {names}"
  | .plain => s!"Unknown backend: {name}"

/-- What is said of a sampler that is not installed. -/
def missing : Dialect → Sampler → String
  | .full, neal => "neal 未安装。请运行: pip install dwave-neal"
  | .full, openjij => "openjij 未安装。请运行: pip install openjij"
  | .full, exact => "dimod 未安装"
  | .located, neal => "neal is not installed. Please install it with: pip install dwave-neal"
  | .plain, neal => "No module named 'neal'"
  | .plain, _ => "openjij is not installed. Please install openjij to use this backend."
  | .located, _ => "openjij is not installed. Please install it with: pip install openjij"

end Sampler

/-- A value that is handed to a sampler. -/
inductive Setting where
  | number (n : Number)
  | range (ns : List Number)
  | absent

/-- Whether there is anything to hand on. -/
def Setting.isGiven : Setting → Bool
  | number _ => true
  | range ns => !ns.isEmpty
  | absent => false

/-- A sampler with its settings. -/
structure Backend where
  sampler : Sampler
  settings : NameTable Setting

/-- Why there is no backend. -/
inductive BackendError where
  | unknown (name : String)
  /-- The sampler has no setting of this name. -/
  | unexpected (setting : String)

namespace Backend

/-- The settings of a sampler with their usual values. -/
def usual : Sampler → NameTable Setting
  | .neal => ⟨[("num_sweeps", .number (.whole 1000)), ("beta_range", .absent), ("seed", .absent)]⟩
  | .openjij =>
    ⟨[("num_sweeps", .number (.whole 1000)), ("beta_min", .number (.real 0.1)),
      ("beta_max", .number (.real 10))]⟩
  | .exact => ∅

/-- The backend of a name with some settings of its own. -/
def make (name : String) (settings : NameTable Setting) : Except BackendError Backend :=
  match Sampler.ofName? .full name with
  | none => .error (.unknown name)
  | some sampler =>
    match settings.keys.find? fun k => !(usual sampler).contains k with
    | some k => .error (.unexpected k)
    | none =>
      .ok ⟨sampler, settings.entries.foldl (fun t (k, v) => t.insert k v) (usual sampler)⟩

/-- What the sampler is called with.  The sweeps may be given with the call. -/
def call (b : Backend) (reads : Int) (sweeps : Option Setting) : List (String × Setting) :=
  let own (k : String) := b.settings.getD k .absent
  let first :=
    [("num_reads", .number (.whole reads)), ("num_sweeps", sweeps.getD (own "num_sweeps"))]
  match b.sampler with
  | .neal =>
    first ++ [("beta_range", own "beta_range"), ("seed", own "seed")].filter fun e => e.2.isGiven
  | .openjij => first
  | .exact => []

end Backend

/-- What a sampler is called with when only the reads are wanted. -/
def plainCall (reads : Int) : List (String × Setting) :=
  [("num_reads", .number (.whole reads))]

/-- What the samplers would answer. -/
structure Reply (ε : Type) where
  matrix : Matrix ε := {}
  /-- Whether a matrix comes with information, and then the times in it. -/
  times : Option (NameTable Scalar) := none
  states : States ε := {}
  /-- The very best sample. -/
  best : Option (Row ε) := none

/-- Samples in the form in which they are decoded. -/
structure SampleSet (ε : Type) where
  samples : List Sample
  energies : List ε
  reads : Int
  times : Option (NameTable Scalar) := none
  sampler : Sampler

/-- The samples and energies of rows. -/
def SampleSet.ofRows {ε : Type} (rows : List (Row ε)) (reads : Int) (sampler : Sampler) :
    SampleSet ε :=
  ⟨rows.map (·.sample), rows.map (·.energy), reads, none, sampler⟩

/-- The reply of a sampler, unless a line of it is too short.  States without energies are no
samples. -/
def Sampler.sampleSet? {ε : Type} (s : Sampler) (reads : Int) (reply : Reply ε) :
    Option (SampleSet ε) :=
  match s with
  | .neal =>
      reply.matrix.rows?.map fun rows => { SampleSet.ofRows rows reads s with times := reply.times }
  | .openjij => some (.ofRows (reply.states.rows?.getD []) reads s)
  | .exact => some (.ofRows reply.best.toList 1 s)

/-- What is said of a list of states that lacks a part. -/
def States.malformed : String :=
  "Unexpected OpenJij response format"

/-- What is said when there is no row to choose from. -/
def noRows : Dialect → String
  | .plain => "min() arg is an empty sequence"
  | .located | .full => "No solutions found"

end AnnealProver
