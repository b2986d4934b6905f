import AnnealProver.Command.Console
import AnnealProver.Learning.Guidance
import AnnealProver.Sampling.Explanation

/-!
# The command lines over telling names

Two commands build a problem with telling names, sample it, check the best sample and explain it.
The second one may ask a network for the weights of rules.
-/

namespace AnnealProver.Command.Labelled

/-- The options of both commands. -/
def options : List OptionSpec :=
  [⟨["--axioms"], .word, true⟩, ⟨["--goal"], .word, true⟩,
   ⟨["--backend"], .choice ["neal", "openjij"], false⟩, ⟨["--reads"], .whole, false⟩,
   ⟨["--axiom-penalty"], .real, false⟩, ⟨["--structure-penalty"], .real, false⟩,
   ⟨["--rule-penalty"], .real, false⟩, ⟨["--verbose"], .flag, false⟩,
   ⟨["--show-all-vars"], .flag, false⟩, ⟨["--show-qubo"], .flag, false⟩]

/-- The options of the guided command. -/
def guidedOptions : List OptionSpec :=
  options ++ [⟨["--use-neural"], .flag, false⟩, ⟨["--model-path"], .word, false⟩,
    ⟨["--show-weights"], .flag, false⟩]

/-- Where the network of the guided command is stored. -/
def usualModel : String :=
  "qubo_prover_v3/qubo_prover_v3/neural/models/rule_selector_v1.pth"

/-- How many samples are asked for. -/
def reads (v : Values) : Int :=
  v.whole "--reads" 100

/-- The penalty of the rules. -/
def rulePenalty (v : Values) : Number :=
  .real (v.real "--rule-penalty" 5)

/-- Builds and compiles the problem. -/
def build (env : Environment) (v : Values) (axioms : List String) (goal : String) :
    Run LabelProblem := do
  let axiomPenalty := Number.real (v.real "--axiom-penalty" 100)
  let structuralPenalty := Number.real (v.real "--structure-penalty" 10)
  let problem := LabelProblem.next none (← parseAll .located axioms) (← parseOne .located goal)
  say (problem.report axioms goal axiomPenalty structuralPenalty (rulePenalty v))
  compile (problem.energy axiomPenalty structuralPenalty)
  say (LabelProblem.compiled env.compiled.terms.size env.compiled.offset)
  return problem

/-- Shows the problem and its equation as far as that is asked for. -/
def display (env : Environment) (v : Values) (guided : Bool) (problem : LabelProblem) :
    Run Unit := do
  if v.has "--verbose" then say ["", problem.summary]
  if v.has "--show-qubo" || v.has "--verbose" then
    say ["", "[QUBO 方程]", Text.repeated 70 "="]
    if !guided then say ["完整的二次无约束二元优化（QUBO）方程:", ""]
    say (env.compiled.account guided)

/-- Samples the problem, checks the best sample and explains it. -/
def solve (env : Environment) (v : Values) (problem : LabelProblem) : Run (Option Int) := do
  let bar := Text.repeated 70 "="
  say ["", "[采样阶段]"]
  let sampler ← openSampler env .located (v.word "--backend" "neal")
  say ["使用后端: " ++ sampler.name, s!"采样次数: {reads v}"]
  let best ← bestRow .located (← sampleRows env sampler (reads v))
  let view := problem.view
  let (ok, message) := LabelView.check view.axiomBits view.goalBit view.formulas best.sample
  say ["最低能量: " ++ Decimal.shortestText best.energy, "", "[验证阶段]", "验证结果: " ++ message,
    "", "[结果]"]
  if ok then
    say (["✓ 证明成功！", "", bar, "详细证明路径:", bar] ++ view.explain best.sample ++ [bar])
  else say ["✗ 证明失败", "原因: " ++ message]
  let all := v.has "--show-all-vars"
  say ["", if v.has "--verbose" || all then "[变量赋值]" else "[关键变量赋值]",
    best.sample.text all, "", bar]
  return some (if ok then 0 else 1)

/-- Asks the network for weights and tells those above one half. -/
def sayWeights (env : Environment) : Run Unit :=
  let weights := Guidance.weights (some env.network)
  say (["", "[神经网络预测阶段]", "预测的规则权重:"] ++
    (weights.ranked.filter fun (_, w) => Number.lt (.real 0.5) w).map fun (name, w) =>
      s!"  {name}: " ++ w.fixed 4)

/-- Gets the network ready. -/
def openModel (env : Environment) (path : String) : Run Unit := do
  if path.isEmpty then say ["⚠ 未指定模型路径，将使用未训练的网络"]
  else
    match env.model with
    | .broken reason =>
      say [s!"✗ 模型加载失败: {reason}"]
      throw (.value reason)
    | _ => say ["✓ 模型加载成功", s!"✓ 已加载神经网络模型: {path}"]

/-- Gets a guided problem ready. -/
def guide (env : Environment) (v : Values) : Run Unit := do
  if v.has "--use-neural" then
    say ["[神经引导模式]"]
    openModel env (v.word "--model-path" usualModel)
    if v.has "--show-weights" then
      let weights := Guidance.weights (some env.network)
      say (["", "神经网络预测的规则权重:"] ++ weights.ranked.map (fun (name, w) =>
        "  " ++ Text.padRight 25 name ++ ": 权重=" ++ w.fixed 4 ++ ", 惩罚系数=" ++
          (Guidance.penalty (rulePenalty v) true ∅ name).fixed 2) ++ [""])
    sayWeights env
  else say ["[Baseline 模式（固定权重）]"]

/-- Tells a fault and ends with its code. -/
def telling (command : Run (Option Int)) : Run (Option Int) :=
  tryCatch command fun fault => do
    complain ["", "错误: " ++ fault.message]
    return some 2

/-- Reads axioms and goal, and goes on unless one is missing. -/
def reading (v : Values) (proceed : List String → String → Run (Option Int)) :
    Run (Option Int) := do
  let axioms := Text.fields ";" (v.word "--axioms" "")
  let goal := Text.trim (v.word "--goal" "")
  if axioms.isEmpty then
    complain ["错误: 至少需要一个公理"]
    return some 1
  else if goal.isEmpty then
    complain ["错误: 目标不能为空"]
    return some 1
  else proceed axioms goal

/-- The command without guidance. -/
def command (env : Environment) (v : Values) : Run (Option Int) :=
  reading v fun axioms goal => do
    say (title 20 "QUBO Prover V2" ++ ["公理: " ++ Text.quotedList axioms, "目标: " ++ goal, ""])
    telling do
      let problem ← build env v axioms goal
      display env v false problem
      solve env v problem

/-- The command with guidance. -/
def guidedCommand (env : Environment) (v : Values) : Run (Option Int) :=
  reading v fun axioms goal => do
    say (title 15 "QUBO Prover V3 - 神经引导版本" ++
      ["公理: " ++ Text.quotedList axioms, "目标: " ++ goal,
       "神经引导: " ++ (if v.has "--use-neural" then "✓ 是" else "✗ 否（baseline）"),
       "后端: " ++ v.word "--backend" "neal", s!"采样次数: {reads v}", ""])
    telling do
      guide env v
      let problem ← build env v axioms goal
      display env v true problem
      solve env v problem

/-- Runs the command without guidance. -/
def run (env : Environment) (arguments : List String) : Ending × Console :=
  runWith options (command env) arguments

/-- Runs the command with guidance. -/
def runGuided (env : Environment) (arguments : List String) : Ending × Console :=
  runWith guidedOptions (guidedCommand env) arguments

end AnnealProver.Command.Labelled
