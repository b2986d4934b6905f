import AnnealProver.Number
import AnnealProver.Table
import AnnealProver.Text.Cut

/-!
# Compiled energies as equations

A compiled energy is a list of **terms** with an offset.  A term couples two bits, or stands for one
bit alone.  It is shown with its linear terms first; long lists may be cut short.
-/

namespace AnnealProver

/-- A compiled energy: coefficients by pairs of bits, and an offset. -/
structure Compiled where
  terms : Table (fun a b : String × String => a == b) Number := ∅
  offset : Number := .whole 0

namespace Compiled

/-- The terms by the names of their bits. -/
def sorted (c : Compiled) : List ((String × String) × Number) :=
  c.terms.entries.mergeSort fun a b =>
    decide (a.1.1 < b.1.1) || (a.1.1 == b.1.1 && decide (a.1.2 ≤ b.1.2))

/-- The terms of one bit. -/
def linear (c : Compiled) : List (String × Number) :=
  c.sorted.filterMap fun ((x, y), k) => if x == y then some (x, k) else none

/-- The terms of two bits, each pair as a product. -/
def quadratic (c : Compiled) : List (String × Number) :=
  c.sorted.filterMap fun ((x, y), k) => if x == y then none else some (s!"{x} * {y}", k)

/-- How many terms are shown of a list that is cut short. -/
def shortened : Nat := 10

/-- The equation with at most ten terms of a kind. -/
def equation (c : Compiled) : List String :=
  let bar := Text.repeated 50 "="
  let show' (ts : List (String × Number)) :=
    (ts.take shortened).map (fun (x, k) =>
      "  " ++ Decimal.signedFixed 1 k.toFloat ++ " * " ++ x) ++
    if shortened < ts.length then [s!"  ... 还有 {ts.length - shortened} 个"] else []
  ["", "[QUBO 方程]", bar, "E(x) = Σ Q_ij * x_i * x_j + offset", ""] ++
  (if c.linear.isEmpty then [] else "线性项:" :: show' c.linear) ++
  (if c.quadratic.isEmpty then [] else "" :: "二次项:" :: show' c.quadratic) ++
  ["", "偏移量: " ++ c.offset.fixed 1, bar]

/-- A coefficient with a plus sign unless it is negative. -/
def signed (k : Number) : String :=
  (if k.lt (.whole 0) then "" else "+") ++ k.fixed 1

/-- The equation with an account of its parts, cut short or not. -/
def account (c : Compiled) (short : Bool) : List String :=
  let show' (kind : String) (ts : List (String × Number)) :=
    (if short then ts.take shortened else ts).map (fun (x, k) => s!"    {signed k} * {x}") ++
    if short && shortened < ts.length then
      [s!"    ... 还有 {ts.length - shortened} 个{kind}"]
    else []
  ["能量函数 E(x) = Σ Q_ij * x_i * x_j + offset", "", "其中:"] ++
  (if c.linear.isEmpty then [] else "  线性项（一次项）:" :: show' "线性项" c.linear) ++
  (if c.quadratic.isEmpty then [] else "" :: "  二次项（交叉项）:" :: show' "二次项" c.quadratic) ++
  ["", "  常数项（offset）: " ++ c.offset.fixed 1, "",
   s!"总计: {c.linear.length} 个线性项 + {c.quadratic.length} 个二次项", Text.repeated 70 "="]

end Compiled

end AnnealProver
