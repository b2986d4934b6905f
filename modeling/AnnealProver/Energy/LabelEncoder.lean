import AnnealProver.Energy.Tie
import AnnealProver.Formula.Printer
import AnnealProver.Text.Cut

/-!
# Bits with telling names

This encoder names the bit of a compound formula after the formula itself: a lead that tells the
context apart, the connective, and **labels** of the parts.  A formula whose name is taken is not
encoded again.  Under a negation the lead is dropped.

Labels leave out parentheses, so different formulas can come to the same name and then share a bit.
-/

namespace AnnealProver

namespace Formula

/-- A formula as part of a name. -/
def label : Formula → String
  | var x => x
  | neg a => "N" ++ a.label
  | conj a b => a.label ++ "A" ++ b.label
  | disj a b => a.label ++ "O" ++ b.label
  | impl a b => a.label ++ "I" ++ b.label
  | iff _ _ => "?"

/-- The name of the bit of a compound formula; others have none of this kind. -/
def labelName (lead : String) : Formula → String
  | neg a => s!"{lead}Not_{a.label}"
  | conj a b => s!"{lead}And_{a.label}_{b.label}"
  | disj a b => s!"{lead}Or_{a.label}_{b.label}"
  | impl a b => s!"{lead}Imp_{a.label}_{b.label}"
  | var _ | iff _ _ => "Unknown"

end Formula

/-- What it costs to break a tie, as the square of the difference. -/
def Tie.squareEnergy {K : Type} : Tie → Energy K
  | join .conj left right name => (.bit name - .bit left * .bit right : Energy K).square
  | tie => tie.energy

/-- The bits handed out so far. -/
structure LabelEncoder where
  /-- The formula of every bit, in order of creation. -/
  formulas : NameTable Formula := ∅
  ties : List Tie := []
  /-- The names of variables. -/
  symbols : NameSet := ∅

namespace LabelEncoder

/-- Gives a variable its bit. -/
def addSymbol (e : LabelEncoder) (x : String) : LabelEncoder :=
  { e with
    symbols := e.symbols.insert x
    formulas := if e.formulas.contains x then e.formulas else e.formulas.insert x (.var x) }

/-- Keeps the name of a formula. -/
def keep (e : LabelEncoder) (name : String) (f : Formula) : LabelEncoder :=
  { e with formulas := e.formulas.insert name f }

/-- Keeps a tie. -/
def addTie (e : LabelEncoder) (tie : Tie) : LabelEncoder :=
  { e with ties := e.ties ++ [tie] }

/-- The name of the bit of a formula.  A compound formula gets its bit before its parts, and its tie
after theirs. -/
def encode (e : LabelEncoder) (lead : String) (formula : Formula) : String × LabelEncoder :=
  let name := formula.labelName lead
  match formula with
  | .var x => (x, e.addSymbol x)
  | .neg a =>
    if e.formulas.contains name then (name, e)
    else
      let (operand, e) := (e.keep name (.neg a)).encode "" a
      (name, e.addTie (.neg operand name))
  | .conj a b =>
    if e.formulas.contains name then (name, e)
    else
      let (left, e) := (e.keep name (.conj a b)).encode lead a
      let (right, e) := e.encode lead b
      (name, e.addTie (.join .conj left right name))
  | .disj a b =>
    if e.formulas.contains name then (name, e)
    else
      let (left, e) := (e.keep name (.disj a b)).encode lead a
      let (right, e) := e.encode lead b
      (name, e.addTie (.join .disj left right name))
  | .impl a b =>
    if e.formulas.contains name then (name, e)
    else
      let (left, e) := (e.keep name (.impl a b)).encode lead a
      let (right, e) := e.encode lead b
      (name, e.addTie (.join .impl left right name))
  | .iff a b => (name, if e.formulas.contains name then e else e.keep name (.iff a b))

/-- The names of all bits. -/
def bits (e : LabelEncoder) : List String :=
  e.formulas.keys

/-- The bits and the formulas as a text. -/
def summary (e : LabelEncoder) : String :=
  let compound := e.formulas.sorted.filter fun entry => !e.symbols.contains entry.1
  Text.lines <|
    [s!"总变量数: {e.formulas.size}", s!"命题变量数: {e.symbols.size}",
     s!"结构约束数: {e.ties.length}", "", "命题变量:"] ++
    (sortNames e.symbols.toList).map (fun x => s!"  - {x}") ++
    ["", "复合公式变量:"] ++
    compound.map fun (name, f) => s!"  - {name}: {f.bracketed}"

end LabelEncoder

end AnnealProver
