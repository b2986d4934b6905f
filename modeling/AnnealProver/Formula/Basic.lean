import AnnealProver.OrderedSet
import AnnealProver.Table

/-!
# Propositional formulas

The formulas of the prover: variables, negation, conjunction, disjunction, implication and
equivalence.

Two formulas are **alike** when they differ only in the order of the two sides of conjunctions,
disjunctions and equivalences.  Knowledge bases, sequents and encodings treat alike formulas as one;
implication keeps its direction, and nothing is regrouped.  The **hash code** by which a formula is
looked up is made so that alike formulas have the same, however tuples are hashed.
-/

namespace AnnealProver

/-- A propositional formula. -/
inductive Formula where
  | var (name : String)
  | neg (operand : Formula)
  | conj (left right : Formula)
  | disj (left right : Formula)
  | impl (left right : Formula)
  | iff (left right : Formula)
deriving DecidableEq, Inhabited

/-- The binary connectives. -/
inductive Connective where
  | conj
  | disj
  | impl
  | iff
deriving DecidableEq

/-- The formula with the given connective at its root. -/
def Connective.apply : Connective → Formula → Formula → Formula
  | conj => .conj
  | disj => .disj
  | impl => .impl
  | iff => .iff

/-- How the connective is written. -/
def Connective.symbol : Connective → String
  | conj => "&"
  | disj => "|"
  | impl => "->"
  | iff => "<->"

/-- The name of the connective's node in a printed tree. -/
def Connective.node : Connective → String
  | conj => "And"
  | disj => "Or"
  | impl => "Imply"
  | iff => "Iff"

/-- Sets of names in order of first occurrence. -/
abbrev NameSet := OrderedSet (fun a b : String => a == b)

namespace Formula

/-- Equality up to swapping the sides of conjunctions, disjunctions and equivalences. -/
def alike : Formula → Formula → Bool
  | var a, var b => a == b
  | neg a, neg b => alike a b
  | conj a b, conj c d => (alike a c && alike b d) || (alike a d && alike b c)
  | disj a b, disj c d => (alike a c && alike b d) || (alike a d && alike b c)
  | impl a b, impl c d => alike a c && alike b d
  | iff a b, iff c d => (alike a c && alike b d) || (alike a d && alike b c)
  | _, _ => false

/-- The number of connectives on the longest way down to a variable. -/
def depth : Formula → Nat
  | var _ => 0
  | neg a => 1 + depth a
  | conj a b | disj a b | impl a b | iff a b => 1 + max (depth a) (depth b)

/-- The number of nodes. -/
def size : Formula → Nat
  | var _ => 1
  | neg a => 1 + size a
  | conj a b | disj a b | impl a b | iff a b => 1 + size a + size b

/-- The formula and the formulas inside it, each before its parts, with repetitions. -/
def subformulas : Formula → List Formula
  | var x => [var x]
  | neg a => neg a :: subformulas a
  | conj a b => conj a b :: (subformulas a ++ subformulas b)
  | disj a b => disj a b :: (subformulas a ++ subformulas b)
  | impl a b => impl a b :: (subformulas a ++ subformulas b)
  | iff a b => iff a b :: (subformulas a ++ subformulas b)

/-- The occurrences of variables from left to right. -/
def names : Formula → List String
  | var x => [x]
  | neg a => names a
  | conj a b | disj a b | impl a b | iff a b => names a ++ names b

/-- The variables of a formula. -/
def vars (f : Formula) : NameSet :=
  .ofList f.names

/-- The variables of several formulas. -/
def varsOf (fs : List Formula) : NameSet :=
  .ofList (fs.flatMap names)

/-- The opposite of a formula: takes off a negation, or puts one on. -/
def opposite : Formula → Formula
  | neg a => a
  | a => neg a

/-- Whether the formula is a variable. -/
def isVar : Formula → Bool
  | var _ => true
  | _ => false

/-- Whether the formula is a negated variable. -/
def isNegatedVar : Formula → Bool
  | neg (var _) => true
  | _ => false

/-- The variable of a literal, that is, of a variable or a negated one. -/
def literalVar? : Formula → Option String
  | var x => some x
  | neg (var x) => some x
  | _ => none

/-- Whether the formula is a variable or a negated one. -/
def isLiteral (f : Formula) : Bool :=
  f.literalVar?.isSome

/-- Puts formulas in place of variables, all at once. -/
def substitute (m : NameTable Formula) : Formula → Formula
  | var x => m.getD x (var x)
  | neg a => neg (substitute m a)
  | conj a b => conj (substitute m a) (substitute m b)
  | disj a b => disj (substitute m a) (substitute m b)
  | impl a b => impl (substitute m a) (substitute m b)
  | iff a b => iff (substitute m a) (substitute m b)

/-- Joins formulas by a connective, from the left; there is nothing to join in an empty list. -/
def join? (c : Connective) : List Formula → Option Formula
  | [] => none
  | f :: rest => some (rest.foldl c.apply f)

/-- Whether a formula alike is in the list. -/
def isAmong (f : Formula) (fs : List Formula) : Bool :=
  fs.any (·.alike f)

end Formula

/-! ## Hash codes -/

/-- What a hash code is made of: words, other codes, and codes without order. -/
inductive HashPart where
  | word (text : String)
  | code (value : Int)
  | codes (values : List Int)

/-- Whether two parts are equal: codes without order are if they have the same members. -/
def HashPart.same : HashPart → HashPart → Bool
  | word a, word b => a == b
  | code a, code b => a == b
  | codes as, codes bs => as.all bs.contains && bs.all as.contains
  | _, _ => false

/-- A way to hash tuples that gives equal tuples equal codes. -/
structure Hasher where
  hash : List HashPart → Int
  respects : ∀ xs ys, xs.isEqv ys HashPart.same = true → hash xs = hash ys

/-- The hash code of a formula.  The codes of the two sides go into it in their order only under an
implication. -/
def Formula.hashCode (h : Hasher) : Formula → Int
  | var x => h.hash [.word "Var", .word x]
  | neg a => h.hash [.word "Not", .code (hashCode h a)]
  | conj a b => h.hash [.word Connective.conj.node, .codes [hashCode h a, hashCode h b]]
  | disj a b => h.hash [.word Connective.disj.node, .codes [hashCode h a, hashCode h b]]
  | impl a b => h.hash [.word Connective.impl.node, .code (hashCode h a), .code (hashCode h b)]
  | iff a b => h.hash [.word Connective.iff.node, .codes [hashCode h a, hashCode h b]]

/-- What is said when a connective is to join no formula at all. -/
def Connective.noOperand (c : Connective) : String :=
  s!"{c.node}.of requires at least one argument"

/-- Sets of formulas, in which alike formulas are one. -/
abbrev FormulaSet := OrderedSet Formula.alike

/-- Tables keyed by formulas, in which alike formulas are one key. -/
abbrev FormulaTable := Table Formula.alike

end AnnealProver
