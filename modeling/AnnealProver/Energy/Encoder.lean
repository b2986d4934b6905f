import AnnealProver.Energy.Tie
import AnnealProver.Formula.Printer
import AnnealProver.Text.Cut

/-!
# Bits for formulas

The **encoder** gives every formula a bit: a variable has a bit of its own name, and a compound
formula has a new bit that is tied to the bits of its parts.  Alike formulas share a bit.

The name of a new bit is made of the connective, the shortened names of the parts and a number that
grows with every compound formula.  All names begin with the encoder's lead.
-/

namespace AnnealProver

/-- A formula with its bit; a compound formula also has its tie. -/
structure Encoded where
  name : String
  formula : Formula
  tie : Option Tie

/-- The bits handed out so far. -/
structure Encoder where
  /-- What all names begin with. -/
  lead : String := ""
  /-- All bits, in order of creation. -/
  bits : NameSet := ∅
  formulas : FormulaTable Encoded := ∅
  ties : List Tie := []
  /-- The bits of variables. -/
  symbols : NameSet := ∅
  /-- How many compound formulas have been named. -/
  counter : Nat := 0

namespace Encoder

/-- A name without the lead, cut to ten characters. -/
def shorten (e : Encoder) (name : String) : String :=
  Text.left 10 (if Text.begins e.lead name then Text.afterFirst e.lead.length name else name)

/-- A name for a compound formula with named parts. -/
def newName (e : Encoder) (stem : String) (parts : List String) : String × Encoder :=
  let number := e.counter + 1
  let middle := String.intercalate "_" (parts.map e.shorten)
  (s!"{e.lead}{stem}_{middle}_{number}", { e with counter := number })

/-- Keeps the encoding of a formula, in place of an earlier one. -/
def keep (e : Encoder) (encoded : Encoded) : Encoded × Encoder :=
  (encoded, { e with formulas := e.formulas.insert encoded.formula encoded })

/-- Gives a variable its bit. -/
def addSymbol (e : Encoder) (x : String) : Encoded × Encoder :=
  let name := e.lead ++ x
  let e := if e.bits.contains name then e
    else { e with bits := e.bits.insert name, symbols := e.symbols.insert name }
  e.keep ⟨name, .var x, none⟩

/-- Gives a compound formula a new bit with its tie. -/
def addTie (e : Encoder) (formula : Formula) (tie : Tie) : Encoded × Encoder :=
  { e with bits := e.bits.insert tie.name, ties := e.ties ++ [tie] }.keep
    ⟨tie.name, formula, some tie⟩

/-- Gives the negation of an encoded formula a new bit. -/
def addNeg (e : Encoder) (formula : Formula) (operand : Encoded) : Encoded × Encoder :=
  let (name, e) := e.newName "Not" [operand.name]
  e.addTie formula (.neg operand.name name)

/-- Gives a compound of two encoded formulas a new bit. -/
def addJoin (e : Encoder) (formula : Formula) (c : Connective) (left right : Encoded) :
    Encoded × Encoder :=
  let (name, e) := e.newName c.stem [left.name, right.name]
  e.addTie formula (.join c left.name right.name name)

/-- The bit of a formula.  A formula that has one keeps it, unless a new one is asked for; its parts
always keep theirs. -/
def encode (e : Encoder) (formula : Formula) (anew : Bool := false) : Encoded × Encoder :=
  match if anew then none else e.formulas.get? formula with
  | some known => (known, e)
  | none =>
    match formula with
    | .var x => e.addSymbol x
    | .neg a =>
      let (a', e) := e.encode a
      e.addNeg (.neg a) a'
    | .conj a b =>
      let (a', e) := e.encode a
      let (b', e) := e.encode b
      e.addJoin (.conj a b) .conj a' b'
    | .disj a b =>
      let (a', e) := e.encode a
      let (b', e) := e.encode b
      e.addJoin (.disj a b) .disj a' b'
    | .impl a b =>
      let (a', e) := e.encode a
      let (b', e) := e.encode b
      e.addJoin (.impl a b) .impl a' b'
    | .iff a b =>
      let (a', e) := e.encode a
      let (b', e) := e.encode b
      e.addJoin (.iff a b) .iff a' b'

/-- The bits of formulas, encoded one after the other. -/
def encodeAll (e : Encoder) : List Formula → List Encoded × Encoder
  | [] => ([], e)
  | f :: rest =>
    let (x, e) := e.encode f
    let (xs, e) := e.encodeAll rest
    (x :: xs, e)

/-- The name of the bit of an encoded formula. -/
def nameOf (e : Encoder) (formula : Formula) : String :=
  ((e.formulas.get? formula).map (·.name)).getD ""

/-- What it costs to break the ties, with a common weight. -/
def energy {K : Type} (e : Encoder) (weight : K) : Energy K :=
  .weightedSum (.weight weight) (e.ties.map (·.energy))

/-- The bits and the formulas as a text. -/
def summary (e : Encoder) : String :=
  Text.lines <|
    ["公式编码器摘要",
     Text.repeated 40 "-",
     s!"总变量数: {e.bits.size}",
     s!"命题变量数: {e.symbols.size}",
     s!"辅助变量数: {e.bits.size - e.symbols.size}",
     s!"结构约束数: {e.ties.length}",
     "",
     "命题变量:"] ++
    (sortNames e.symbols.toList).map (fun x => s!"  - {x}") ++
    ["", "编码的公式:"] ++
    e.formulas.entries.map (fun (f, x) => s!"  - {x.name}: {f.text}")

end Encoder

end AnnealProver
