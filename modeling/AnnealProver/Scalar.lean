import AnnealProver.Number

/-!
# Values of variables as they are given

A reported assignment may hold anything in place of a bit: a number, a flag, a text, or nothing.
-/

namespace AnnealProver

/-- A value in a reported assignment. -/
inductive Scalar where
  | number (n : Number)
  | flag (b : Bool)
  | text (s : String)
  | absent

namespace Scalar

/-- Whether the value is zero or one; flags count as bits. -/
def isBinary : Scalar → Bool
  | number n => n.equals (.whole 0) || n.equals (.whole 1)
  | flag _ => true
  | text _ => false
  | absent => false

/-- The truth value that the value stands for. -/
def truth : Scalar → Bool
  | number n => !n.equals (.whole 0)
  | flag b => b
  | text s => !s.isEmpty
  | absent => false

/-- The value as it is shown in a message. -/
def shown : Scalar → String
  | number n => n.text
  | flag b => if b then "True" else "False"
  | text s => s
  | absent => "None"

end Scalar

end AnnealProver
