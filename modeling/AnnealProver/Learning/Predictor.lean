import AnnealProver.Formula.Parser
import AnnealProver.Learning.Features
import AnnealProver.Number
import AnnealProver.Proof.Search
import AnnealProver.Text.Column
import AnnealProver.Text.Quoted

/-!
# Predicting useful rules

A **predictor** gives weights to the rules of a problem.  A network that has been asked may give
them; without one all rules weigh the same.  The greater the weight of a rule, the smaller its
penalty.
-/

namespace AnnealProver

/-- Weights of rules by name. -/
abbrev Weights := NameTable Number

namespace Weights

/-- The rules that have weights when no network is asked. -/
def ruleNames : List String :=
  ["modus_ponens", "modus_tollens", "and_intro", "and_elim_left", "and_elim_right",
   "or_intro_left", "or_intro_right", "or_elim", "not_intro", "double_neg_elim", "imply_intro",
   "resolution"]

/-- The same weight for all rules. -/
def uniform (names : List String) : Weights :=
  ⟨names.map fun name => (name, .real 1)⟩

/-- Weights by experience. -/
def heuristic : Weights :=
  ⟨[("modus_ponens", .real 0.95), ("modus_tollens", .real 0.85), ("and_elim_left", .real 0.80),
    ("and_elim_right", .real 0.80), ("and_intro", .real 0.70), ("or_intro_left", .real 0.60),
    ("or_intro_right", .real 0.60), ("or_elim", .real 0.75), ("not_intro", .real 0.50),
    ("double_neg_elim", .real 0.65), ("imply_intro", .real 0.55), ("resolution", .real 0.70)]⟩

/-- The rules by falling weight; equal weights keep their order. -/
def ranked (w : Weights) : List (String × Number) :=
  w.entries.mergeSort fun a b => !a.2.lt b.2

/-- The rules of greatest weight; a negative count leaves out so many of the last. -/
def top (w : Weights) (count : Int) : List (String × Number) :=
  takeTo count w.ranked

/-- The penalty of a rule of the given weight. -/
def penaltyOf (base weight : Number) : Number :=
  base * (.real 2 - weight)

/-- The penalties of the rules. -/
def penalties (w : Weights) (base : Number) : Weights :=
  ⟨w.entries.map fun (name, weight) => (name, penaltyOf base weight)⟩

/-- A bar whose length shows a weight. -/
def bar (weight : Number) : String :=
  Text.repeated (weight * .whole 20).truncate.toNat "█"

/-- The features that an explanation shows. -/
def shownFeatures : List String :=
  ["num_axioms", "num_variables", "mp_potential", "mt_potential", "and_elim_potential",
   "goal_in_axioms"]

/-- The problem, its most telling features and the ranked weights as a text. -/
def explain (w : Weights) (axioms : List String) (goal : String) (features : List Feature) :
    String :=
  let double := Text.repeated 50 "="
  Text.lines <|
    [double, "规则权重预测", double, "", "输入:", "  公理: " ++ Text.quotedList axioms,
     "  目标: " ++ goal, "", "关键特征:"] ++
    (features.filter fun f => shownFeatures.contains f.1).map (fun (name, value) =>
      s!"  - {name}: " ++ Decimal.fixed 2 (Feature.toSingle value)) ++
    ["", "预测的规则权重 (按重要性排序):"] ++
    w.ranked.map (fun (name, weight) =>
      "  " ++ Text.padRight 20 name ++ ": " ++ weight.fixed 3 ++ " " ++ bar weight) ++
    ["", double]

end Weights

/-- The features of a problem given as texts. -/
def Features.ofProblemTexts (axioms : List String) (goal : String) :
    Except ParseFailure (List Feature) := do
  let axioms ← Formula.parseAll .full axioms
  let goal ← Formula.parse .full goal
  return Features.ofProblem axioms goal

/-- What there is under the path of a stored network. -/
inductive ModelFile where
  | absent
  | broken (reason : String)
  | sound

/-- What is said when a predictor gets ready.  Without a stored network that can be read, an
untrained one is used. -/
def Predictor.notices (path : String) (file : ModelFile) : List String :=
  let untrained := "ℹ 使用未训练的神经网络（随机权重）"
  if path.isEmpty then [untrained]
  else
    match file with
    | .absent => [untrained]
    | .broken reason => [s!"✗ 模型加载失败: {reason}", untrained]
    | .sound => [s!"✓ 已加载神经网络模型: {path}"]

/-- The weights that a network gives to a problem, once its features have been read. -/
def Predictor.ask (network : Weights) (axioms : List String) (goal : String) :
    Except ParseFailure (Weights × List Feature) := do
  return (network, ← Features.ofProblemTexts axioms goal)

end AnnealProver
