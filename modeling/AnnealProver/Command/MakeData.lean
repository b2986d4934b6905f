import AnnealProver.Command.Console
import AnnealProver.Learning.Dataset

/-!
# The command line that makes training problems

The command turns choices into exercises, a stored text and an account of what it did.  How the
choices come from a seed is left open; `draws` makes them with a generator of random numbers.
-/

namespace AnnealProver.Command.MakeData

/-- The options. -/
def options : List OptionSpec :=
  [⟨["--num-samples"], .whole, false⟩, ⟨["--output"], .word, false⟩, ⟨["--seed"], .whole, false⟩]

/-- Where the exercises are stored. -/
def usualOutput : String :=
  "qubo_prover_v3/data/training_data/dataset.json"

/-- What the command leaves behind: the seed, the path and the text stored there. -/
structure Product where
  seed : Int
  path : String
  stored : String

/-- The names that exercises use. -/
def symbols : List String :=
  ["P", "Q", "R", "S", "T"]

/-- So many of the names, in random order. -/
def pick (gen : StdGen) : Nat → List String → List String × StdGen
  | 0, _ => ([], gen)
  | count + 1, names =>
    let (place, gen) := randNat gen 0 (names.length - 1)
    let (rest, gen) := pick gen count (names.eraseIdx place)
    (names.getD place "" :: rest, gen)

/-- So many random choices. -/
def draws (gen : StdGen) : Nat → List Draw
  | 0 => []
  | count + 1 =>
    let (place, gen) := randNat gen 0 (Template.all.length - 1)
    let (names, gen) := pick gen symbols.length symbols
    ⟨place, names⟩ :: draws gen count

/-- Makes exercises from the choices that a seed gives. -/
def make (choose : (seed : Int) → (count : Nat) → List Draw) (v : Values) : Run Product := do
  let count := v.whole "--num-samples" 10000
  let path := v.word "--output" usualOutput
  let seed := v.whole "--seed" 42
  let bar := Text.repeated 60 "="
  say [bar, "训练数据生成器", bar, s!"样本数量: {count}", "输出路径: " ++ path, s!"随机种子: {seed}", "",
    s!"生成 {count} 个训练样本..."]
  let exercises ← (choose seed count.toNat).mapM fun d => demand .outOfRange d.exercise?
  say (["数据集已保存到: " ++ path, s!"样本数量: {exercises.length}", "", "数据集统计:", bar] ++
    Dataset.statistics exercises ++ ["", "✓ 数据生成完成！"])
  return ⟨seed, path, Dataset.stored exercises⟩

/-- Runs the command. -/
def run (choose : (seed : Int) → (count : Nat) → List Draw) (arguments : List String) :
    Except Exit (Except Fault Product × Console) :=
  (readOptions options arguments).map fun values => (make choose values).run.run {}

end AnnealProver.Command.MakeData
