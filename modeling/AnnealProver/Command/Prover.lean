import AnnealProver.Command.Console
import AnnealProver.Formula.Models
import AnnealProver.Sampling.Decoding

/-!
# The command line of the prover

A goal is proved by sampling, by inference, or by inference first and then by sampling.  The command
can also decide entailment alone, or list the samplers.
-/

namespace AnnealProver.Command.Prover

/-- The options. -/
def options : List OptionSpec :=
  [⟨["--axioms"], .word, false⟩, ⟨["--goal"], .word, false⟩,
   ⟨["--mode"], .choice ["qubo", "symbolic", "hybrid"], false⟩, ⟨["--use-neural"], .flag, false⟩,
   ⟨["--model-path"], .word, false⟩, ⟨["--show-weights"], .flag, false⟩,
   ⟨["--backend"], .word, false⟩, ⟨["--reads"], .whole, false⟩,
   ⟨["--axiom-penalty"], .real, false⟩, ⟨["--structure-penalty"], .real, false⟩,
   ⟨["--verbose", "-v"], .flag, false⟩, ⟨["--quiet", "-q"], .flag, false⟩,
   ⟨["--show-qubo"], .flag, false⟩, ⟨["--list-backends"], .flag, false⟩,
   ⟨["--check-entailment"], .flag, false⟩]

/-- Prints lines unless the command is to be quiet. -/
def tell (v : Values) (rows : List String) : Run Unit :=
  if v.has "--quiet" then pure () else say rows

/-- The weights of the rules, from the network if it is asked for and there. -/
def askWeights (env : Environment) (v : Values) (axioms : List String) (goal : String) :
    Run Weights := do
  if !v.has "--use-neural" then return ∅
  else if !env.canPredict then
    say ["警告: 神经网络模块不可用，使用默认权重"]
    return ∅
  else
    say (Predictor.notices (v.word "--model-path" "") env.model)
    match Predictor.ask env.network axioms goal with
    | .error failure => throw (.formula failure)
    | .ok (weights, features) =>
      if v.has "--show-weights" then say [weights.explain axioms goal features]
      return weights

/-- Builds and compiles the problem. -/
def build (env : Environment) (v : Values) (weights : Weights) (axioms : List String)
    (goal : String) : Run Problem := do
  let penalty : Penalties Number :=
    { Penalties.usual with
      axioms := .real (v.real "--axiom-penalty" 100)
      structural := .real (v.real "--structure-penalty" 20) }
  let verbose := v.has "--verbose"
  if verbose then say (Problem.opening axioms goal)
  let problem := Problem.ofFormulas (← parseAll .full axioms) (← parseOne .full goal)
  compile (problem.energy penalty weights)
  if verbose then
    say (problem.report penalty env.compiled.terms.size env.compiled.offset ++
      [Problem.summary (some problem)])
  return problem

/-- Proves by sampling. -/
def proveBySampling (env : Environment) (v : Values) (axioms : List String) (goal : String) :
    Run Bool := do
  if !env.canSample then
    say ["错误: QUBO 模块不可用", "请安装依赖: pip install pyqubo dwave-neal"]
    return false
  else
    let weights ← askWeights env v axioms goal
    let problem ← build env v weights axioms goal
    if v.has "--show-qubo" then say env.compiled.equation
    let name := v.word "--backend" "neal"
    let reads := v.whole "--reads" 100
    tell v ["", "[采样阶段]", "后端: " ++ name, s!"采样次数: {reads}"]
    let sampler ← openSampler env .full name
    callWith ((Backend.mk sampler (Backend.usual sampler)).call reads none)
    let set ← demand .outOfRange (sampler.sampleSet? reads env.reply)
    let axiomBits := problem.axiomBits.map (·.name)
    let decoded ← demand .outOfRange
      (Decoded.ofSamples? problem.encoder axiomBits problem.goalBit.name set.samples set.energies)
    tell v ["", "最低能量: " ++ (decoded.energy.map (Decimal.fixed 4)).getD "inf",
      decoded.text axiomBits problem.goalBit.name]
    return decoded.proofHolds

/-- Tells the result of a search. -/
def tellSearch (result : SearchResult) : Run Unit := do
  let bar := Text.repeated 60 "="
  say [bar, "搜索结果", bar, "成功: " ++ (if result.success then "是" else "否"),
    s!"探索步数: {result.explored}"]
  sayTime "ms"
  say ("" :: if result.success then [result.state.text] else [])

/-- Proves by inference. -/
def proveByInference (v : Values) (axioms : List String) (goal : String) : Run Bool := do
  let result := prove (← parseAll .full axioms) (← parseOne .full goal) {}
  if !v.has "--quiet" then tellSearch result
  return result.success

/-- Proves by inference, and if that fails by sampling. -/
def proveEitherWay (env : Environment) (v : Values) (axioms : List String) (goal : String) :
    Run Bool := do
  tell v ["[尝试符号证明]"]
  let result := prove (← parseAll .full axioms) (← parseOne .full goal) { maxSteps := 50 }
  if result.success then
    tell v ["✓ 符号证明成功", result.state.text]
    return true
  else
    tell v ["符号证明未成功，尝试 QUBO 证明..."]
    proveBySampling env v axioms goal

/-- Lists the samplers. -/
def listSamplers (env : Environment) : Run (Option Int) := do
  if !env.canSample then
    say ["QUBO 模块不可用，无法列出后端"]
    return some 1
  else
    say ("可用的求解器后端:" :: (Sampler.known .full).map fun s =>
      (if env.installed.contains s.package then "  ✓ " else "  ✗ ") ++ s.name)
    return some 0

/-- Decides entailment. -/
def decideEntailment (axioms : List String) (goal : String) : Run (Option Int) := do
  if Formula.entails (← parseAll .full axioms) (← parseOne .full goal) then
    say ["✓ 语义蕴涵成立：公理蕴涵目标"]
    return some 0
  else
    say ["✗ 语义蕴涵不成立：公理不蕴涵目标"]
    return some 1

/-- Proves in the way that is asked for, and tells how long it took or what went wrong. -/
def proveGoal (env : Environment) (v : Values) (mode : String) (axioms : List String)
    (goal : String) : Run (Option Int) :=
  let proof : Run Bool :=
    match mode with
    | "symbolic" => proveByInference v axioms goal
    | "hybrid" => proveEitherWay env v axioms goal
    | _ => proveBySampling env v axioms goal
  let finished : Run (Option Int) := do
    let success ← proof
    if !v.has "--quiet" then
      say [""]
      sayTime "秒"
    return some (if success then 0 else 1)
  tryCatch finished fun fault => do
    say ["", "错误: " ++ fault.message]
    return some 2

/-- The whole command. -/
def command (env : Environment) (v : Values) : Run (Option Int) := do
  let axiomText := v.word "--axioms" ""
  let goalText := v.word "--goal" ""
  let axioms := Text.fields ";" axiomText
  let goal := Text.trim goalText
  let mode := v.word "--mode" "qubo"
  if v.has "--list-backends" then listSamplers env
  else if axiomText.isEmpty || goalText.isEmpty then
    sayHelp
    say ["", "错误: 必须指定 --axioms 和 --goal"]
    return some 1
  else if axioms.isEmpty then
    say ["错误: 至少需要一个公理"]
    return some 1
  else
    tell v (title 15 "QUBO Prover V3.1 - 神经引导版本" ++
      ["公理: " ++ Text.quotedList axioms, "目标: " ++ goal, "模式: " ++ mode] ++
      (if v.has "--use-neural" then ["神经网络: ✓ 启用"] else []) ++ [""])
    if v.has "--check-entailment" then decideEntailment axioms goal
    else proveGoal env v mode axioms goal

/-- Runs the command. -/
def run (env : Environment) (arguments : List String) : Ending × Console :=
  runWith options (command env) arguments

end AnnealProver.Command.Prover
