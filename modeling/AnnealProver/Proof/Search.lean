import AnnealProver.Number
import AnnealProver.Proof.Rule
import AnnealProver.Proof.State

/-!
# Searching for a proof

Three strategies.  **Forward** search draws inferences from the axioms until the goal is known:
in each round it lists what all rules allow, orders it by priority with the goal in front, and takes
up the first few that are new.  It gives up after four rounds in a row without anything new.
**Backward** search looks for one inference that concludes the goal, and would prove missing
premises the same way.  **Bidirectional** search first looks, on a copy of the knowledge base, how
far the two ends are apart, and then searches forward.

Before any of them a truth table may settle that the goal does not follow.
-/

namespace AnnealProver

/-- The search strategies. -/
inductive Strategy where
  | forward
  | backward
  | bidirectional
deriving DecidableEq

/-- The strategy of a word. -/
def Strategy.ofText? : String → Option Strategy
  | "forward" => some forward
  | "backward" => some backward
  | "bidirectional" => some bidirectional
  | _ => none

/-- How to search. -/
structure SearchConfig where
  strategy : Strategy := .forward
  maxSteps : Int := 100
  maxDepth : Int := 20
  /-- How many inferences a round takes up; a negative number leaves out so many of the last. -/
  maxBranching : Int := 10
  /-- Whether to look at the truth table first. -/
  checksSemantics : Bool := true
  /-- Priorities by rule name; a rule without one has priority one. -/
  priorities : NameTable Number := ∅
  /-- The names of the rules that are not used. -/
  excluded : List String := []

/-- What a search comes to. -/
structure SearchResult where
  success : Bool
  state : ProofState
  /-- How many rounds or goals were looked at. -/
  explored : Nat
  path : List String := []

/-- The first elements of a list, or with a negative count all but the last ones. -/
def takeTo {α : Type} (count : Int) (as : List α) : List α :=
  if 0 ≤ count then as.take count.toNat else as.take (as.length - (-count).toNat)

/-- Goes through a list until a step succeeds, handing the state on. -/
def firstSuccess {α σ : Type} (step : α → σ → Bool × σ) : List α → σ → Bool × σ
  | [], s => (false, s)
  | a :: rest, s =>
    match step a s with
    | (true, s) => (true, s)
    | (false, s) => firstSuccess step rest s

/-- Goes through a list as long as the steps succeed, handing the state on. -/
def allSucceed {α σ : Type} (step : α → σ → Bool × σ) : List α → σ → Bool × σ
  | [], s => (true, s)
  | a :: rest, s =>
    match step a s with
    | (true, s) => allSucceed step rest s
    | (false, s) => (false, s)

namespace SearchConfig

/-- The priority of a rule. -/
def priority (c : SearchConfig) (rule : Rule) : Number :=
  c.priorities.getD rule.name (.real 1.0)

/-- How much an inference is wanted: its rule's priority, and ten more if it concludes the goal. -/
def score (c : SearchConfig) (goal : Formula) (r : Inference) : Number :=
  c.priority r.rule + (if r.conclusion.alike goal then 10 else 0 : Nat)

/-- The inferences of a round, the most wanted first; among equals the order of the rules. -/
def ranked (c : SearchConfig) (goal : Formula) (rs : List Inference) : List Inference :=
  let scored := rs.map fun r => (c.score goal r, r)
  (scored.mergeSort fun a b => !a.1.lt b.1).map (·.2)

end SearchConfig

/-- The numbers of the latest steps of the premises. -/
def ProofState.premiseNumbers (s : ProofState) (premises : List Formula) : List Int :=
  premises.filterMap fun p => (s.findStep? p).map fun step => (step.number : Int)

/-- Records an inference, with the conclusion in the given spelling. -/
def ProofState.record (s : ProofState) (r : Inference) (conclusion : Formula) : ProofState :=
  (s.addStep conclusion r.rule.name (s.premiseNumbers r.premises) r.description).2

/-! ## Forward -/

/-- What a round of forward search did. -/
structure Round where
  state : ProofState
  /-- Something new was recorded. -/
  progress : Bool
  /-- The goal was recorded. -/
  reached : Bool

/-- Records inferences with new conclusions, up to and with one that concludes the goal. -/
def takeUp (goal : Formula) : List Inference → ProofState → (progress : Bool) → Round
  | [], s, progress => ⟨s, progress, false⟩
  | r :: rest, s, progress =>
    if s.knowledge.contains r.conclusion then takeUp goal rest s progress
    else
      let s := s.record r r.conclusion
      if r.conclusion.alike goal then ⟨s, true, true⟩ else takeUp goal rest s true

/-- Rounds of forward search.  `stalled` counts the latest rounds without anything new. -/
def forwardRounds (c : SearchConfig) (goal : Formula) : (rounds : Nat) → (stalled : Nat) →
    ProofState → (explored : Nat) → SearchResult
  | 0, _, s, explored => ⟨false, { s with status := .failed }, explored, []⟩
  | rounds + 1, stalled, s, explored =>
    let explored := explored + 1
    if s.knowledge.contains goal then ⟨true, { s with status := .success }, explored, []⟩
    else
      let inferences := c.ranked goal (Rule.applyAll s.knowledge none c.excluded)
      let round := takeUp goal (takeTo c.maxBranching inferences) s false
      if round.reached then ⟨true, { round.state with status := .success }, explored, []⟩
      else if round.progress then forwardRounds c goal rounds 0 round.state explored
      else if stalled < 3 then forwardRounds c goal rounds (stalled + 1) round.state explored
      else ⟨false, { round.state with status := .failed }, explored, []⟩

/-- Forward search from a state. -/
def forwardSearch (c : SearchConfig) (goal : Formula) (s : ProofState) (explored : Nat) :
    SearchResult :=
  forwardRounds c goal c.maxSteps.toNat 0 s explored

/-! ## Backward -/

/-- What backward search carries along. -/
structure Descent where
  state : ProofState
  visited : FormulaSet := ∅
  explored : Nat := 0

/-- Proves a goal by one inference whose missing premises are proved the same way; `fuel` is how
many levels may still be opened. -/
def descend (c : SearchConfig) : (fuel : Nat) → Formula → Descent → Bool × Descent
  | 0, _, d => (false, { d with explored := d.explored + 1 })
  | fuel + 1, goal, d =>
    let d := { d with explored := d.explored + 1 }
    if d.visited.contains goal then (false, d)
    else
      let d := { d with visited := d.visited.insert goal }
      if d.state.knowledge.contains goal then (true, d)
      else
        firstSuccess (fun (rule : Rule) d =>
          firstSuccess (fun (r : Inference) d =>
            if r.conclusion.alike goal then
              let premise := fun (p : Formula) (d : Descent) =>
                if d.state.knowledge.contains p then (true, d) else descend c fuel p d
              match allSucceed premise r.premises d with
              | (true, d) => (true, { d with state := d.state.record r goal })
              | (false, d) => (false, d)
            else (false, d)) (rule.apply d.state.knowledge (some goal)) d)
          (Rule.allBut c.excluded) d

/-- Backward search from a state. -/
def backwardSearch (c : SearchConfig) (goal : Formula) (s : ProofState) : SearchResult :=
  let (success, d) := descend c (c.maxDepth + 1).toNat goal { state := s }
  ⟨success, d.state, d.explored, []⟩

/-! ## Bidirectional -/

/-- What has to be shown for a goal: both sides of a conjunction, the right side of an
implication. -/
def subgoals : Formula → List Formula
  | .conj p q => [p, q]
  | .impl _ q => [q]
  | _ => []

/-- Adds conclusions until one of them is wanted: the new knowledge, and whether one was. -/
def growUntil (wanted : Formula → Bool) : List Inference → FormulaSet → Bool × FormulaSet
  | [], kb => (false, kb)
  | r :: rest, kb =>
    if kb.contains r.conclusion then growUntil wanted rest kb
    else if wanted r.conclusion then (true, kb.insert r.conclusion)
    else growUntil wanted rest (kb.insert r.conclusion)

/-- Looks from both ends for a place where they meet, and then searches forward: when a conclusion
is wanted, when all that has to be shown for a target is known, or when no rounds are left.  The
knowledge base `kb` grows beside the state. -/
def meetHalfway (c : SearchConfig) (goal : Formula) (s : ProofState) : (rounds : Nat) →
    (kb targets : FormulaSet) → (explored : Nat) → SearchResult
  | 0, _, _, explored => forwardSearch c goal s explored
  | rounds + 1, kb, targets, explored =>
    let explored := explored + 1
    let drawn := takeTo c.maxBranching (Rule.applyAll kb none c.excluded)
    match growUntil (fun f => targets.contains f || f.alike goal) drawn kb with
    | (true, _) => forwardSearch c goal s explored
    | (false, kb) =>
      if targets.toList.any fun t => (subgoals t).all kb.contains then
        forwardSearch c goal s explored
      else
        meetHalfway c goal s rounds kb (targets.insertAll (targets.toList.flatMap subgoals))
          explored

/-- Bidirectional search from a state. -/
def bidirectionalSearch (c : SearchConfig) (goal : Formula) (s : ProofState) : SearchResult :=
  meetHalfway c goal s (c.maxSteps.fdiv 2).toNat s.knowledge (.ofList [goal]) 0

/-! ## The whole search -/

/-- Searches for a proof of the goal from the axioms. -/
def prove (axioms : List Formula) (goal : Formula) (c : SearchConfig) : SearchResult :=
  let s := ProofState.start axioms goal
  if s.knowledge.contains goal then ⟨true, { s with status := .success }, 0, []⟩
  else if c.checksSemantics && !Formula.entails axioms goal then
    ⟨false, { s with status := .failed }, 0, ["语义检查失败：前提不蕴涵目标"]⟩
  else
    match c.strategy with
    | .forward => forwardSearch c goal s 0
    | .backward => backwardSearch c goal s
    | .bidirectional => bidirectionalSearch c goal s

end AnnealProver
