import AnnealProver.Formula.Semantics
import AnnealProver.Text.Column
import AnnealProver.Text.Cut

/-!
# A table for modus tollens

All assignments of two variables, with the truth values of `P → Q`, `¬Q` and `¬P`: only one of them
makes both axioms true, and it makes the goal true.
-/

namespace AnnealProver.Command.Tollens

/-- The axioms. -/
def axioms : List Formula :=
  [.impl (.var "P") (.var "Q"), .neg (.var "Q")]

/-- The goal. -/
def goal : Formula :=
  .neg (.var "P")

/-- The row of an assignment. -/
def row (p q : Bool) : String :=
  let valuation : Valuation := fun x => if x == "P" then p else q
  let digit (b : Bool) := if b then "1" else "0"
  let mark (b : Bool) := Text.centre 10 (if b then "✓" else "✗")
  String.intercalate " | " <|
    [digit p, digit q, Text.padLeft 4 (digit ((axioms.headD goal).eval valuation)),
     Text.padLeft 2 (digit !q), Text.padLeft 2 (digit (goal.eval valuation)),
     mark (axioms.all fun f => f.eval valuation), mark (goal.eval valuation)]

/-- The table with its conclusion. -/
def lines : List String :=
  let rule := Text.repeated 60 "-"
  ["Modus Tollens 验证", Text.repeated 60 "=", "公理 1: P->Q", "公理 2: ~Q", "目标: ~P", "",
   "真值表验证:", rule, "P | Q | P->Q | ~Q | ~P | 满足公理? | 满足目标?", rule] ++
  ([false, true].flatMap fun p => [false, true].map fun q => row p q) ++
  [rule, "", "结论:", "只有 P=0, Q=0 同时满足所有公理和目标", "即: P=False, Q=False, ~P=True",
   "因此 Modus Tollens 推理是正确的！"]

end AnnealProver.Command.Tollens
