import AnnealProver.Energy.Basic

/-!
# Gates

A **gate** stands for the use of an inference rule.  Where its control bit is one, the premises and
the conclusion are to be one; where it is zero, the conclusion is to be zero, since nothing else
derives it.

A fixed board of nineteen gates over shared bits makes up the smallest problem: it is the same for
all axioms and goals, and the goal only chooses the gate that is looked at.  The gates are written
down twice: the energy charges for those of one list, and a sample is checked by those of another.
-/

namespace AnnealProver

/-- A control bit with the bits of premises and conclusion. -/
structure Gate where
  control : String
  premises : List String
  conclusion : String
deriving DecidableEq

namespace Gate

/-- What it costs to misuse the gate. -/
def energy {K : Type} (g : Gate) : Energy K :=
  .sum (((g.premises ++ [g.conclusion]).map fun x => .bit g.control * .asksFor x) ++
    [.bit g.conclusion * .asksFor g.control])

/-- Whether the gate is used as it should be. -/
def holds (g : Gate) (value : String → Int) : Bool :=
  if value g.control == 1 then (g.premises ++ [g.conclusion]).all fun x => value x == 1
  else value g.conclusion == 0

end Gate

/-- A gate of the board, with the goal that chooses it and the inference that it stands for. -/
structure BoardGate where
  name : String
  gate : Gate
  goal : String
  path : String

namespace BoardGate

/-- The gate that is looked at when the goal chooses none. -/
def modusPonens : BoardGate :=
  ⟨"modus_ponens", ⟨"R", ["P", "Imp"], "Q"⟩, "Q", "P, (P->Q) => Q with rule R=1"⟩

/-- The gates by which a sample is checked. -/
def board : List BoardGate :=
  [modusPonens,
   ⟨"and_elim_left", ⟨"RL", ["And"], "A"⟩, "A", "And(A,B) => A with RL=1"⟩,
   ⟨"and_elim_right", ⟨"RR", ["And"], "B"⟩, "B", "And(A,B) => B with RR=1"⟩,
   ⟨"or_intro", ⟨"RI", ["X"], "Or"⟩, "OR", "X => (X or Y) with RI=1"⟩,
   ⟨"and_intro", ⟨"RAI", ["A", "B"], "And"⟩, "AND", "A,B => (A and B) with RAI=1"⟩,
   ⟨"modus_tollens", ⟨"RMT", ["Imp", "NQ"], "NP"⟩, "NP", "(P->Q), ~Q => ~P with RMT=1"⟩,
   ⟨"double_neg_elim", ⟨"RDN", ["NNX"], "X"⟩, "X", "~~X => X with RDN=1"⟩,
   ⟨"de_morgan", ⟨"RDM", ["NAnd"], "OrNeg"⟩, "ORNEG", "~(A&B) => (~A or ~B) with RDM=1"⟩,
   ⟨"double_neg_intro", ⟨"RDI", ["X"], "NNX"⟩, "NNX", "X => ~~X with RDI=1"⟩,
   ⟨"de_morgan_two", ⟨"RDM2", ["NOr"], "AndNeg"⟩, "ANDNEG", "~(A|B) => (~A & ~B) with RDM2=1"⟩,
   ⟨"or_elim", ⟨"ROE", ["Or", "IAC", "IBC"], "C"⟩, "C", "Or(A,B), A->C, B->C => C with ROE=1"⟩,
   ⟨"resolution", ⟨"RRES", ["OrAX", "OrNAY"], "OrXY"⟩, "ORXY",
    "Or(A,X), Or(~A,Y) => Or(X,Y) with RRES=1"⟩,
   ⟨"implication_trans", ⟨"RTR", ["IAB", "IBC"], "IAC2"⟩, "IAC2",
    "(A->B),(B->C) => (A->C) with RTR=1"⟩,
   ⟨"or_comm", ⟨"RORC", ["OrAB"], "OrBA"⟩, "ORBA", "Or(A,B) => Or(B,A) with RORC=1"⟩,
   ⟨"contraposition", ⟨"RCP", ["Imp"], "INQNP"⟩, "INQNP", "(P->Q) => (~Q -> ~P) with RCP=1"⟩,
   ⟨"and_comm", ⟨"RANDC", ["AndAB"], "AndBA"⟩, "ANDBA", "And(A,B) => And(B,A) with RANDC=1"⟩,
   ⟨"or_assoc", ⟨"RORAS", ["OrA_BC"], "OrAB_C"⟩, "ORAB_C",
    "Or(A,Or(B,C)) => Or(Or(A,B),C) with RORAS=1"⟩,
   ⟨"or_idempotence", ⟨"RORI", ["OrAA"], "A"⟩, "A_ORIDEM", "Or(A,A) => A with RORI=1"⟩,
   ⟨"and_idempotence", ⟨"RANDI", ["AndAA"], "A"⟩, "A_ANDIDEM", "And(A,A) => A with RANDI=1"⟩]

/-- The bits of the board.  A few of them have no gate. -/
def bits : List String :=
  ["P", "Imp", "Q", "R", "A", "B", "And", "RL", "RR", "X", "Y", "Or", "RI", "RAI", "NP", "NQ",
   "RMT", "NNX", "RDN", "NA", "NB", "NAnd", "OrNeg", "RDM", "RDI", "NOr", "AndNeg", "RDM2", "IAC",
   "IBC", "C", "ROE", "OrAX", "OrNAY", "OrXY", "RRES", "IAB", "IAC2", "RTR", "OrAB", "OrBA",
   "RORC", "INQNP", "RCP", "AndAB", "AndBA", "RANDC", "OrA_BC", "OrAB_C", "RORAS", "OrAA", "RORI",
   "AndAA", "RANDI"]

/-- The gates for which the energy charges, in the order in which their costs are added up. -/
def charged : List Gate :=
  [⟨"R", ["P", "Imp"], "Q"⟩, ⟨"RL", ["And"], "A"⟩, ⟨"RR", ["And"], "B"⟩, ⟨"RI", ["X"], "Or"⟩,
   ⟨"RAI", ["A", "B"], "And"⟩, ⟨"RMT", ["Imp", "NQ"], "NP"⟩, ⟨"RDN", ["NNX"], "X"⟩,
   ⟨"RDM", ["NAnd"], "OrNeg"⟩, ⟨"RDI", ["X"], "NNX"⟩, ⟨"RDM2", ["NOr"], "AndNeg"⟩,
   ⟨"ROE", ["Or", "IAC", "IBC"], "C"⟩, ⟨"RRES", ["OrAX", "OrNAY"], "OrXY"⟩,
   ⟨"RTR", ["IAB", "IBC"], "IAC2"⟩, ⟨"RORC", ["OrAB"], "OrBA"⟩, ⟨"RCP", ["Imp"], "INQNP"⟩,
   ⟨"RANDC", ["AndAB"], "AndBA"⟩, ⟨"RORAS", ["OrA_BC"], "OrAB_C"⟩, ⟨"RORI", ["OrAA"], "A"⟩,
   ⟨"RANDI", ["AndAA"], "A"⟩]

/-- The energy of the board: the penalty times what the gates cost. -/
def boardEnergy {K : Type} (penalty : K) : Energy K :=
  .weight penalty * .sum (charged.map Gate.energy)

/-- The gate of a name. -/
def ofName? (name : String) : Option BoardGate :=
  board.find? fun b => b.name == name

/-- The gate that a goal in capitals and without spaces chooses. -/
def ofGoal (goal : String) : BoardGate :=
  (board.find? fun b => b.goal == goal).getD modusPonens

end BoardGate

/-! ## A library of rules that make gates -/

/-- A rule by its title and the number of its premises. -/
structure GateRule where
  name : String
  title : String
  description : String
  premises : Nat

namespace GateRule

/-- The rules of the library. -/
def library : List GateRule :=
  [⟨"modus_ponens", "Modus Ponens", "From P and P→Q, infer Q", 2⟩,
   ⟨"modus_tollens", "Modus Tollens", "From P→Q and ~Q, infer ~P", 2⟩,
   ⟨"and_elim_left", "And-Elimination (Left)", "From P∧Q, infer P", 1⟩,
   ⟨"and_elim_right", "And-Elimination (Right)", "From P∧Q, infer Q", 1⟩,
   ⟨"and_intro", "And-Introduction", "From P and Q, infer P∧Q", 2⟩,
   ⟨"or_intro", "Or-Introduction", "From P, infer P∨Q", 1⟩,
   ⟨"double_neg_elim", "Double Negation Elimination", "From ~~P, infer P", 1⟩]

/-- The rule of a name. -/
def ofName? (name : String) : Option GateRule :=
  library.find? fun r => r.name == name

/-- The gate on bits given as premises, conclusion, control, if there are as many as the rule
takes. -/
def gate? (r : GateRule) (bits : List String) : Option Gate :=
  match bits.drop r.premises with
  | [conclusion, control] => some ⟨control, bits.take r.premises, conclusion⟩
  | _ => none

/-- What the gate costs where its bits have the given values. -/
def cost? (r : GateRule) (values : List Int) : Option Int :=
  (r.gate? (values.zipIdx.map fun v => toString v.2)).map fun g =>
    g.energy.value fun name => (values[name.toNat?.getD 0]?).getD 0

end GateRule

end AnnealProver
