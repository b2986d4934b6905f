import AnnealProver.Learning.Guidance
import AnnealProver.Learning.Surface
import AnnealProver.Learning.Template
import AnnealProver.Text.Json

/-!
# Sets of training problems

A set of exercises is stored as a text, and read as pairs of vectors: the surface features of an
exercise, and a one for every rule that is useful for it.
-/

namespace AnnealProver

namespace Exercise

/-- The exercise as it is stored. -/
def toJson (e : Exercise) : Text.Json :=
  .object
    [("axioms", .array (e.axioms.map .text)), ("goal", .text e.goal),
     ("useful_rules", .array (e.usefulRules.map .text)), ("template_name", .text e.template)]

/-- The features of the exercise. -/
def features (e : Exercise) : List Rat :=
  (Features.ofTexts e.axioms e.goal).map (·.2)

/-- A one for every rule of the network that is useful, a zero for the others. -/
def labels (e : Exercise) : List Rat :=
  Guidance.ruleNames.map fun rule => Feature.flag (e.usefulRules.contains rule)

end Exercise

namespace Dataset

/-- The exercises as they are stored. -/
def stored (es : List Exercise) : String :=
  (Text.Json.array (es.map Exercise.toJson)).pretty

/-- What is said when a set has been loaded. -/
def loaded (count : Nat) : String :=
  s!"加载了 {count} 个样本"

/-- How many exercises come from each template, by name. -/
def counts (es : List Exercise) : List (String × Nat) :=
  (es.foldl (fun (t : NameTable Nat) e => t.insert e.template (t.getD e.template 0 + 1)) ∅).sorted

/-- A count as a share in percent. -/
def percent (count total : Nat) : String :=
  Text.padLeft 5 (Decimal.fixed 2 (Decimal.ofInt count / Decimal.ofInt total * 100))

/-- How the exercises divide among the templates, line by line. -/
def statistics (es : List Exercise) : List String :=
  (counts es).map fun (name, count) =>
    "  " ++ Text.padRight 25 name ++ ": " ++ Text.padLeft 5 (toString count) ++ " (" ++
      percent count es.length ++ "%)"

end Dataset

end AnnealProver
