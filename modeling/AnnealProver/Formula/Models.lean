import AnnealProver.Formula.Semantics
import AnnealProver.Formula.Printer

/-!
# Deciding by truth tables

A formula's truth depends on finitely many names, so every question about all valuations is settled
by running through the assignments of those names.  They are listed in lexicographic order: names
by code point, false before true.
-/

namespace AnnealProver

/-- The assignments of the given names, the first name varying slowest. -/
def rowsOver : List String → List (List (String × Bool))
  | [] => [[]]
  | x :: xs =>
    let rest := rowsOver xs
    rest.map ((x, false) :: ·) ++ rest.map ((x, true) :: ·)

/-- The assignments of a set of names, the names in the order of their code points. -/
def assignmentsOver (names : NameSet) : List Assignment :=
  (rowsOver (sortNames names.toList)).map Table.mk

namespace Formula

/-- Whether the formula is true under the assignment of its names. -/
def holds (f : Formula) (a : Assignment) : Bool :=
  f.evaluateOr a false

/-- The assignments of the formula's names. -/
def assignments (f : Formula) : List Assignment :=
  assignmentsOver f.vars

/-- Whether the formula is true whatever the values. -/
def isTautology (f : Formula) : Bool :=
  f.assignments.all f.holds

/-- Whether the formula is false whatever the values. -/
def isContradiction (f : Formula) : Bool :=
  f.assignments.all fun a => !f.holds a

/-- Whether the formula can be true. -/
def isSatisfiable (f : Formula) : Bool :=
  f.assignments.any f.holds

/-- The first assignment under which the formula is true. -/
def findModel (f : Formula) : Option Assignment :=
  f.assignments.find? f.holds

/-- All assignments under which the formula is true. -/
def findModels (f : Formula) : List Assignment :=
  f.assignments.filter f.holds

/-- The first assignment under which the formula is false. -/
def findCountermodel (f : Formula) : Option Assignment :=
  f.assignments.find? fun a => !f.holds a

/-- Whether two formulas have the same truth value whatever the values of their names. -/
def isEquivalent (f g : Formula) : Bool :=
  (assignmentsOver (varsOf [f, g])).all fun a => f.holds a == g.holds a

/-- The first assignment that makes the premises true and the conclusion false. -/
def findEntailmentCountermodel (premises : List Formula) (conclusion : Formula) :
    Option Assignment :=
  (assignmentsOver (varsOf (premises ++ [conclusion]))).find? fun a =>
    premises.all (·.holds a) && !conclusion.holds a

/-- Whether the conclusion is true wherever the premises are. -/
def entails (premises : List Formula) (conclusion : Formula) : Bool :=
  (assignmentsOver (varsOf (premises ++ [conclusion]))).all fun a =>
    !premises.all (·.holds a) || conclusion.holds a

/-- Every assignment of the formula's names with the formula's value. -/
def truthTable (f : Formula) : List (Assignment × Bool) :=
  f.assignments.map fun a => (a, f.holds a)

/-- The truth table as a text: names and formula in the heading, then a row of zeros and ones per
assignment. -/
def truthTableText (f : Formula) : String :=
  let bit := fun b : Bool => if b then "1" else "0"
  let heading :=
    String.intercalate " | " (sortNames f.vars.toList) ++ " | " ++ f.text
  let row := fun (a, value) =>
    String.intercalate " | " ((a.values ++ [value]).map bit)
  Text.lines (heading :: Text.repeated heading.length "-" :: f.truthTable.map row)

end Formula

end AnnealProver
