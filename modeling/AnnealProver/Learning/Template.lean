import AnnealProver.Formula.Basic
import AnnealProver.Text.Cut

/-!
# Problems from templates

A **template** is a problem with capital letters in braces as **slots**.  Choosing names for the
slots makes a training problem, which is labelled with the rules that solve it.
-/

namespace AnnealProver

/-- A problem with slots. -/
structure Template where
  name : String
  axioms : List String
  goal : String
  usefulRules : List String

/-- A training problem. -/
structure Exercise where
  axioms : List String
  goal : String
  usefulRules : List String
  template : String

namespace Template

/-- A slot as it is written. -/
def slot (letter : String) : String :=
  "\x7b" ++ letter ++ "\x7d"

/-- The slots in a text. -/
def slotsIn : List Char → List String
  | [] => []
  | c :: rest =>
    match c, rest with
    | '\x7b', letter :: '\x7d' :: _ =>
      if letter.isUpper then letter.toString :: slotsIn rest else slotsIn rest
    | _, _ => slotsIn rest

/-- The slots in a text, in order. -/
def slots (text : String) : List String :=
  slotsIn text.toList

/-- Fills slots one after the other, so that what one is filled with can be filled again. -/
def fill (names : NameTable String) (text : String) : String :=
  names.entries.foldl (fun text (letter, name) => Text.replace (slot letter) name text) text

/-- The texts of the template. -/
def texts (t : Template) : List String :=
  t.axioms ++ [t.goal]

/-- The different slots, in order of first use. -/
def allSlots (t : Template) : NameSet :=
  .ofList (t.texts.flatMap slots)

/-- The templates. -/
def all : List Template :=
  let a := slot "A"
  let b := slot "B"
  let c := slot "C"
  [⟨"modus_ponens", [a, a ++ "->" ++ b], b, ["modus_ponens"]⟩,
   ⟨"modus_tollens", [a ++ "->" ++ b, "~" ++ b], "~" ++ a, ["modus_tollens"]⟩,
   ⟨"syllogism", [a ++ "->" ++ b, b ++ "->" ++ c], a ++ "->" ++ c, ["modus_ponens"]⟩,
   ⟨"and_elimination_left", [a ++ "&" ++ b], a, ["and_elimination_left"]⟩,
   ⟨"and_elimination_right", [a ++ "&" ++ b], b, ["and_elimination_right"]⟩,
   ⟨"and_introduction", [a, b], a ++ "&" ++ b, ["and_introduction"]⟩,
   ⟨"double_negation", ["~~" ++ a], a, ["double_negation"]⟩,
   ⟨"complex_chain", [a, a ++ "->" ++ b, b ++ "->" ++ c], c, ["modus_ponens"]⟩]

/-- The template of a name. -/
def ofName? (name : String) : Option Template :=
  all.find? fun t => t.name == name

/-- The problem with the slots, by letter, filled with the given names; there may be too few. -/
def exercise? (t : Template) (names : List String) : Option Exercise :=
  let letters := sortNames t.allSlots.toList
  if names.length < letters.length then none
  else
    let filled := fill (.ofList (letters.zip names))
    some ⟨t.axioms.map filled, filled t.goal, t.usefulRules, t.name⟩

end Template

/-- A choice of a template by its place, a negative one counting from the end, and of names. -/
structure Draw where
  place : Int
  names : List String

/-- The element at a place, a negative place counting from the end. -/
def atPlace? {α : Type} (as : List α) (place : Int) : Option α :=
  if 0 ≤ place then as[place.toNat]?
  else if (-place).toNat ≤ as.length then as[as.length - (-place).toNat]?
  else none

/-- The exercise of a choice, if the template and names enough are there. -/
def Draw.exercise? (d : Draw) : Option Exercise :=
  (atPlace? Template.all d.place).bind fun t => t.exercise? d.names

end AnnealProver
