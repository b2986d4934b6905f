import AnnealProver.Decimal.Fixed
import AnnealProver.Energy.Problem
import AnnealProver.Sampling.Sample
import AnnealProver.Text.Upper

/-!
# Reading a sample as a proof

The best sample is **decoded**: the bits of the axioms and of the goal are to be one, and the bits
of negations and implications are to go with those of their parts.
-/

namespace AnnealProver

/-- How the ties came out, and which sample was taken. -/
structure DecodingDetails where
  tiesHold : Bool
  reason : String
  samples : Nat
  place : Nat

/-- What a set of samples comes to.  Without samples there is no energy and there are no details. -/
structure Decoded (ε : Type) where
  sample : Sample
  energy : Option ε
  axiomsHold : Bool
  goalHolds : Bool
  proofHolds : Bool
  message : String
  details : Option DecodingDetails

namespace Decoded

/-- Whether the axioms and the goal hold. -/
def holds {ε : Type} (d : Decoded ε) : Bool :=
  d.axiomsHold && d.goalHolds

/-- What is wrong with a negation, if anything: it is one exactly where its operand is zero. -/
def negationFault? (e : Encoder) (s : Sample) : Formula × Encoded → Option String
  | (.neg a, x) =>
    (e.formulas.get? a).bind fun operand =>
      if s.value x.name + s.value operand.name == 1 then none
      else some s!"否定约束违反: {x.name}={s.value x.name}, {operand.name}={s.value operand.name}"
  | _ => none

/-- What is wrong with an implication, if anything: it is not one where its left side is one and its
right side is zero. -/
def implicationFault? (e : Encoder) (s : Sample) : Formula × Encoded → Option String
  | (.impl a b, x) =>
    match e.formulas.get? a, e.formulas.get? b with
    | some left, some right =>
      if s.value x.name == 1 && s.value left.name == 1 && s.value right.name == 0 then
        some s!"蕴涵约束违反: {x.name}=1, {left.name}=1, {right.name}=0"
      else none
    | _, _ => none
  | _ => none

/-- The first fault, negations before implications. -/
def fault? (e : Encoder) (s : Sample) : Option String :=
  e.formulas.entries.findSome? (negationFault? e s) <|>
    e.formulas.entries.findSome? (implicationFault? e s)

/-- The verdict in words. -/
def verdict (axiomsHold goalHolds : Bool) (fault : Option String) : String :=
  if !axiomsHold then "证明失败：公理约束未满足。"
  else if !goalHolds then "证明失败：目标约束未满足。"
  else
    match fault with
    | some reason => s!"证明失败：结构约束违反 - {reason}"
    | none => "证明成功！所有约束满足。"

/-- Decodes one sample. -/
def ofSample {ε : Type} (e : Encoder) (axiomBits : List String) (goalBit : String)
    (samples place : Nat) (s : Sample) (energy : ε) : Decoded ε :=
  let axiomsHold := axiomBits.all fun x => s.value x == 1
  let goalHolds := s.value goalBit == 1
  let fault := fault? e s
  { sample := s, energy := some energy, axiomsHold, goalHolds
    proofHolds := axiomsHold && goalHolds && fault.isNone
    message := verdict axiomsHold goalHolds fault
    details := some ⟨fault.isNone, fault.getD "", samples, place⟩ }

/-- What there is to say without samples. -/
def nothing {ε : Type} : Decoded ε :=
  ⟨∅, none, false, false, false, "没有找到解", none⟩

/-- Decodes the best sample.  It fails if a sample lacks an energy or an energy its sample. -/
def ofSamples? {ε : Type} [LT ε] [DecidableLT ε] (e : Encoder) (axiomBits : List String)
    (goalBit : String) (samples : List Sample) (energies : List ε) : Option (Decoded ε) :=
  if samples.isEmpty then some nothing
  else do
    let (place, energy) ← lowest? energies
    let s ← samples[place]?
    return ofSample e axiomBits goalBit samples.length place s energy

/-- The verdict on the proof, with a word for it. -/
def verified {ε : Type} (d : Decoded ε) : Bool × String :=
  if d.proofHolds then (true, "证明验证通过") else (false, d.message)

end Decoded

/-- Part of a sample. -/
inductive Selection where
  /-- The proposition symbols. -/
  | symbols
  /-- The bits that are one. -/
  | ones
  /-- The bits of formulas. -/
  | formulas
  | all

/-- The part of a sample that is asked for. -/
def Sample.select (s : Sample) : Selection → Sample
  | .symbols => s.filter fun x _ => Text.isSymbol x
  | .ones => s.filter fun _ v => v == 1
  | .formulas => s.filter fun x _ => !Text.begins "Rule_" x && !Text.begins "step_" x
  | .all => s

/-- The symbols of a sample with their truth values, by name. -/
def Sample.truthLines (s : Sample) : List String :=
  (s.select .symbols).sorted.map fun (x, v) =>
    s!"  {x} = " ++ if v == 1 then "真(True)" else "假(False)"

/-- The decoded sample as a text. -/
def Decoded.text (d : Decoded Float) (axiomBits : List String) (goalBit : String) : String :=
  let bar := Text.repeated 60 "="
  let word (b : Bool) := if b then "是" else "否"
  let line (x : String) := (if d.sample.value x == 1 then "  ✓ " else "  ✗ ") ++ x
  Text.lines <|
    [bar, "证明结果", bar, "", if d.proofHolds then "✓ 证明成功！" else "✗ 证明失败", "",
     "能量: " ++ (d.energy.map (Decimal.fixed 4)).getD "inf",
     "公理满足: " ++ word d.axiomsHold, "目标满足: " ++ word d.goalHolds, "", "变量赋值:"] ++
    d.sample.truthLines ++ ["", "公理状态:"] ++ axiomBits.map line ++
    ["", "目标状态:", line goalBit, "", bar]

end AnnealProver
