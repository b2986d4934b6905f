import AnnealProver.Proof.State

/-!
# Working on a proof by hand

A session is a proof state with a stack of saved copies.  Its actions are the ways in which a state
can change, so the states that a session can reach are the reachable ones.
-/

namespace AnnealProver

/-- What can be done with a proof state. -/
inductive Action where
  | addStep (formula : Formula) (rule : String) (premises : List Int) (justification : String)
  | assume (formula : Formula) (target : Option Formula)
  | discharge
  | conditional (assumption conclusion : Formula)
  | setStatus (status : Status)
  | save
  | restore

/-- What an action hands back. -/
inductive Outcome where
  | nothing
  | step (step : Option Step)
  | assumption (assumption : Option Assumption)

/-- A proof state with saved copies, the latest first. -/
structure Session where
  state : ProofState
  saved : List ProofState := []

/-- Carries out an action.  Restoring needs a saved copy. -/
def Session.perform? (s : Session) : Action → Option (Outcome × Session)
  | .addStep formula rule premises justification =>
    let (step, state) := s.state.addStep formula rule premises justification
    some (.step (some step), { s with state })
  | .assume formula target =>
    let (step, state) := s.state.assume formula target
    some (.step (some step), { s with state })
  | .discharge =>
    let (assumption, state) := s.state.discharge
    some (.assumption assumption, { s with state })
  | .conditional assumption conclusion =>
    let (step, state) := s.state.conditional assumption conclusion
    some (.step step, { s with state })
  | .setStatus status => some (.nothing, { s with state := { s.state with status } })
  | .save => some (.nothing, { s with saved := s.state.clone :: s.saved })
  | .restore =>
    match s.saved with
    | [] => none
    | state :: saved => some (.nothing, { state, saved })

/-- Carries out actions one after the other. -/
def Session.replay? (s : Session) : List Action → Option Session
  | [] => some s
  | action :: rest =>
    match s.perform? action with
    | some (_, s) => s.replay? rest
    | none => none

end AnnealProver
