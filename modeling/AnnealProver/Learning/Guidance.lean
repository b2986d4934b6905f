import AnnealProver.Learning.Predictor

/-!
# Guiding gates by weights

The network that guides gates knows eight rules by names of its own.  Its weights are carried over
to the names of the gate library; where two of its rules are one in the library, the greater weight
counts.
-/

namespace AnnealProver.Guidance

/-- The rules of the network, with their names in the gate library. -/
def rules : List (String × String) :=
  [("modus_ponens", "modus_ponens"), ("modus_tollens", "modus_tollens"),
   ("and_elimination_left", "and_elim_left"), ("and_elimination_right", "and_elim_right"),
   ("and_introduction", "and_intro"), ("or_introduction_left", "or_intro"),
   ("or_introduction_right", "or_intro"), ("double_negation", "double_neg_elim")]

/-- The rules of the network. -/
def ruleNames : List String :=
  rules.map (·.1)

/-- The name of a rule of the network in the gate library. -/
def libraryName? (name : String) : Option String :=
  (rules.find? fun r => r.1 == name).map (·.2)

/-- Gives a rule of the library a weight, unless it has a greater one. -/
def raise (w : Weights) (name : String) (weight : Number) : Weights :=
  match w.get? name with
  | some known => if known.lt weight then w.insert name weight else w
  | none => w.insert name weight

/-- The weights of a network under the names of the library. -/
def carryOver (network : Weights) : Weights :=
  network.entries.foldl (fun w (name, weight) =>
    match libraryName? name with
    | some known => raise w known weight
    | none => w) ∅

/-- The weights with a network, or the same weight for all its rules without one. -/
def weights : Option Weights → Weights
  | some network => carryOver network
  | none => .uniform ruleNames

/-- The penalty of a rule.  Without guidance, or without a weight, it is the base. -/
def penalty (base : Number) (guided : Bool) (w : Weights) (rule : String) : Number :=
  match guided, w.get? rule with
  | true, some weight => Weights.penaltyOf base weight
  | _, _ => base

end AnnealProver.Guidance
