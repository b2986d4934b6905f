import AnnealProver.Energy.Encoder

/-!
# Demands on formulas

A **demand** asks for something of the truth values of formulas and is turned into an energy on
their bits.  Demands are gathered over one encoder, so that their energies can be added up.
-/

namespace AnnealProver

/-- What can be asked of the truth values of formulas. -/
inductive Demand where
  /-- The formula has the value. -/
  | truth (f : Formula) (value : Bool)
  /-- If the first is true then so is the second. -/
  | implication (a b : Formula)
  /-- Both have the same value. -/
  | equivalence (a b : Formula)
  /-- No two of them are true. -/
  | exclusion (fs : List Formula)
  /-- One of them is true. -/
  | atLeastOne (fs : List Formula)
  /-- If a formula and an implication are true then so is the conclusion. -/
  | modusPonens (p implication q : Formula)
  /-- If an implication and the negation of its right side are true then so is the conclusion. -/
  | modusTollens (implication notQ notP : Formula)

namespace Demand

/-- The word for the kind of demand. -/
def label : Demand → String
  | truth _ _ => "TRUTH"
  | implication _ _ => "IMPLICATION"
  | equivalence _ _ => "EQUIVALENCE"
  | exclusion _ => "EXCLUSION"
  | atLeastOne _ => "AT_LEAST_ONE"
  | modusPonens _ _ _ => "MODUS_PONENS"
  | modusTollens _ _ _ => "MODUS_TOLLENS"

/-- The weight that the demand has when none is given. -/
def usualWeight : Demand → Nat
  | truth _ _ => 100
  | modusPonens _ _ _ | modusTollens _ _ _ => 20
  | _ => 50

/-- The formulas it speaks of, in the order in which they get bits. -/
def formulas : Demand → List Formula
  | truth f _ => [f]
  | implication a b | equivalence a b => [a, b]
  | exclusion fs | atLeastOne fs => fs
  | modusPonens a b c | modusTollens a b c => [a, b, c]

/-- Whether it asks for anything: fewer than two formulas exclude each other, and among no formulas
there is none to be true. -/
def isProper : Demand → Bool
  | exclusion fs => 2 ≤ fs.length
  | atLeastOne fs => !fs.isEmpty
  | _ => true

/-- What it costs to fail the demand, given the bits of the formulas. -/
def energy {K : Type} (weight : K) (bit : Formula → Energy K) : Demand → Energy K
  | truth f true => .weight weight * (1 - bit f)
  | truth f false => .weight weight * bit f
  | implication a b => .weight weight * bit a * (1 - bit b)
  | equivalence a b => .weight weight * (bit a - bit b).square
  | exclusion fs =>
    let total := Energy.sum (fs.map bit)
    if 2 ≤ fs.length then .weight weight * total * (total - 1) / 2 else 0
  | atLeastOne fs =>
    let total := Energy.sum (fs.map bit)
    if fs.isEmpty then .weight weight else .weight weight * (1 - total) * (1 - total)
  | modusPonens p i q => .weight weight * bit p * bit i * (1 - bit q)
  | modusTollens i p q => .weight weight * bit i * bit p * (1 - bit q)

end Demand

/-- Demands gathered over an encoder. -/
structure Demands (K : Type) where
  encoder : Encoder
  /-- The kind and the energy of each. -/
  made : List (String × Energy K) := []

namespace Demands

variable {K : Type}

/-- Makes a demand.  One that asks for nothing has an energy but is not kept. -/
def make (d : Demands K) (demand : Demand) (weight : K) : Energy K × Demands K :=
  let encoder := (d.encoder.encodeAll demand.formulas).2
  let energy := demand.energy weight fun f => .bit (encoder.nameOf f)
  if demand.isProper then (energy, { encoder, made := d.made ++ [(demand.label, energy)] })
  else (energy, { d with encoder })

/-- The energies added up. -/
def total (d : Demands K) : Energy K :=
  .sum (d.made.map (·.2))

/-- How many demands there are of each kind, by name. -/
def counts (d : Demands K) : NameTable Nat :=
  d.made.foldl (fun t (label, _) => t.insert label (t.getD label 0 + 1)) ∅

/-- The demands as a text. -/
def summary (d : Demands K) : String :=
  Text.lines <|
    ["约束摘要", Text.repeated 40 "-", s!"总约束数: {d.made.length}", "", "按类型:"] ++
    d.counts.sorted.map fun (label, count) => s!"  - {label}: {count}"

/-- The weight that an inference has when none is given. -/
def usualRuleWeight : Nat := 10

/-- The weight that the ties have when none is given. -/
def usualTieWeight : Nat := 20

/-- What it costs to have a premise without the conclusion, added up over the premises. -/
def inference (encoder : Encoder) (premises : List Formula) (conclusion : Formula) (weight : K) :
    Energy K × Encoder :=
  let d := premises.foldl (fun d p => (d.make (.implication p conclusion) weight).2)
    { encoder : Demands K }
  (d.total, d.encoder)

/-- What it costs to break ties with the given energies. -/
def ties [NatCast K] (energies : List (Energy K)) (weight : K) : Energy K :=
  .weight weight * .weightedSum (.weight ((1 : Nat) : K)) energies

end Demands

end AnnealProver
