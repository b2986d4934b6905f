import AnnealProver.Command.Console
import AnnealProver.Command.GateBoard
import AnnealProver.Command.Labelled
import AnnealProver.Command.MakeData
import AnnealProver.Command.Options
import AnnealProver.Command.Prover
import AnnealProver.Command.Tollens
import AnnealProver.Decimal.Binary
import AnnealProver.Decimal.Fixed
import AnnealProver.Decimal.Reading
import AnnealProver.Decimal.Shortest
import AnnealProver.Energy.Basic
import AnnealProver.Energy.Demand
import AnnealProver.Energy.Encoder
import AnnealProver.Energy.Equation
import AnnealProver.Energy.Gate
import AnnealProver.Energy.LabelEncoder
import AnnealProver.Energy.LabelProblem
import AnnealProver.Energy.Problem
import AnnealProver.Energy.StepProblem
import AnnealProver.Energy.Tie
import AnnealProver.Formula.Basic
import AnnealProver.Formula.Cursor
import AnnealProver.Formula.Models
import AnnealProver.Formula.Parser
import AnnealProver.Formula.Printer
import AnnealProver.Formula.Semantics
import AnnealProver.Formula.Token
import AnnealProver.Learning.Dataset
import AnnealProver.Learning.Features
import AnnealProver.Learning.Guidance
import AnnealProver.Learning.Predictor
import AnnealProver.Learning.Surface
import AnnealProver.Learning.Template
import AnnealProver.Main
import AnnealProver.NormalForm.Clause
import AnnealProver.NormalForm.Cnf
import AnnealProver.NormalForm.Negation
import AnnealProver.NormalForm.Resolution
import AnnealProver.Number
import AnnealProver.OrderedSet
import AnnealProver.Proof.Rule
import AnnealProver.Proof.Search
import AnnealProver.Proof.Sequent
import AnnealProver.Proof.Session
import AnnealProver.Proof.State
import AnnealProver.Proof.Verification
import AnnealProver.Sampling.Backend
import AnnealProver.Sampling.Decoding
import AnnealProver.Sampling.Explanation
import AnnealProver.Sampling.Sample
import AnnealProver.Scalar
import AnnealProver.Table
import AnnealProver.Text.Blank
import AnnealProver.Text.Column
import AnnealProver.Text.Cut
import AnnealProver.Text.Digit
import AnnealProver.Text.Intervals
import AnnealProver.Text.Json
import AnnealProver.Text.Letter
import AnnealProver.Text.Printable
import AnnealProver.Text.Quoted
import AnnealProver.Text.Upper
import AnnealProver.Text.Word
import AnnealProver.Proofs.Meaning
import AnnealProver.Proofs.PartialEvaluation
import AnnealProver.Proofs.TruthTable
import AnnealProver.Proofs.Clauses
import AnnealProver.Proofs.Rules
import AnnealProver.Proofs.Search
import AnnealProver.Proofs.Derivations
import AnnealProver.Proofs.Sequents
import AnnealProver.Proofs.NormalForm
import AnnealProver.Proofs.Refutation
import AnnealProver.Proofs.Costs
import AnnealProver.Proofs.Likeness
import AnnealProver.Proofs.Keys
import AnnealProver.Proofs.Encoding
import AnnealProver.Proofs.GroundStates
import AnnealProver.Proofs.Decoding
import AnnealProver.Proofs.LateTies
import AnnealProver.Proofs.Readings
import AnnealProver.Proofs.Verdicts
import AnnealProver.Proofs.Grammar
import AnnealProver.Proofs.RoundTrip
import AnnealProver.Proofs.Assumptions
import AnnealProver.Proofs.Reach
import AnnealProver.Proofs.Consequences
import AnnealProver.Proofs.Strategies
import AnnealProver.Proofs.Matching
import AnnealProver.Proofs.Dialects
import AnnealProver.Proofs.Names
import AnnealProver.Proofs.Forgetting
import AnnealProver.Proofs.BracketedText
import AnnealProver.Proofs.IdleSteps
import AnnealProver.Proofs.PrintedChecks
import AnnealProver.Proofs.Conversions
import AnnealProver.Proofs.Budgets
import AnnealProver.Proofs.Bookkeeping
import AnnealProver.Proofs.Outcomes
import AnnealProver.Proofs.SequentLogs
import AnnealProver.Proofs.Saturation
import AnnealProver.Proofs.AxiomOrder
import AnnealProver.Proofs.ReportedValues
import AnnealProver.Proofs.Enumeration
import AnnealProver.Proofs.Substitution
import AnnealProver.Proofs.Potentials
import AnnealProver.Proofs.Symmetries
import AnnealProver.Proofs.Demands
import AnnealProver.Proofs.BracketedReading
import AnnealProver.Proofs.CutFormulas
import AnnealProver.Proofs.Explanations
import AnnealProver.Proofs.LowestEnergy
import AnnealProver.Proofs.Gates
import AnnealProver.Proofs.ClauseSets
