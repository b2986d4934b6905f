import AnnealProver.Learning.Features
import AnnealProver.Text.Cut

/-!
# Features of the texts of a problem

Twelve numbers that are read off the texts of the formulas without parsing them: which signs occur,
how many capital letters there are, how long the texts are and how deep their parentheses go.
-/

namespace AnnealProver.Features

open Feature

/-- The capital letters of the Latin alphabet in a text. -/
def capitals (text : String) : List Char :=
  text.toList.filter Char.isUpper

/-- How many different capital letters there are. -/
def countCapitals (texts : List String) : Nat :=
  (OrderedSet.ofList (texts.flatMap capitals) : OrderedSet fun a b : Char => a == b).size

/-- How deep the parentheses go, given the depth here and the greatest so far. -/
def parenDepth : (here greatest : Int) → List Char → Int
  | _, greatest, [] => greatest
  | here, greatest, c :: rest =>
    if c == '(' then parenDepth (here + 1) (max greatest (here + 1)) rest
    else if c == ')' then parenDepth (here - 1) greatest rest
    else parenDepth here greatest rest

/-- The features of the texts of a problem. -/
def ofTexts (axioms : List String) (goal : String) : List Feature :=
  let joined := String.intercalate " " axioms
  let all := axioms ++ [goal]
  let depths := all.map fun text => (parenDepth 0 0 text.toList).toNat
  [("num_axioms", axioms.length),
   ("has_implication", flag (Text.occurs "->" joined)),
   ("has_negation", flag (Text.occurs "~" joined)),
   ("has_conjunction", flag (Text.occurs "&" joined)),
   ("has_disjunction", flag (Text.occurs "|" joined)),
   ("goal_has_implication", flag (Text.occurs "->" goal)),
   ("goal_has_negation", flag (Text.occurs "~" goal)),
   ("goal_has_conjunction", flag (Text.occurs "&" goal)),
   ("goal_has_disjunction", flag (Text.occurs "|" goal)),
   ("num_variables", countCapitals all),
   ("avg_formula_length", average (all.map String.length)),
   ("max_formula_depth", largest depths)]

end AnnealProver.Features
