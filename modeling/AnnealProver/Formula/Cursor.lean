import AnnealProver.Formula.Parser

/-!
# Walking through a text by hand

A cursor is a position in a text that always stands behind the blanks.  It shows the next symbol,
takes it when it is the expected one, and reads names.
-/

namespace AnnealProver

/-- A text with a position in it. -/
structure Cursor where
  text : List Char
  position : Nat

namespace Cursor

/-- The characters from the position on. -/
def rest (c : Cursor) : List Char :=
  c.text.drop c.position

/-- Moves behind the blanks. -/
def skipBlanks (c : Cursor) : Cursor :=
  { c with position := c.position + (c.rest.takeWhile Text.isBlank).length }

/-- The cursor at the start of a text. -/
def start (text : String) : Cursor :=
  skipBlanks ⟨text.toList, 0⟩

/-- Whether the text is used up. -/
def atEnd (c : Cursor) : Bool :=
  c.text.length ≤ c.position

/-- The next symbol: an arrow if one stands here, otherwise one character; nothing at the end. -/
def peek (c : Cursor) : String :=
  match c.rest with
  | [] => ""
  | '<' :: '-' :: '>' :: _ => "<->"
  | '-' :: '>' :: _ => "->"
  | x :: _ => x.toString

/-- Moves on by a number of characters, and behind the blanks that follow. -/
def advance (c : Cursor) (count : Nat) : Cursor :=
  skipBlanks { c with position := c.position + count }

/-- Takes the symbol if it is the next one. -/
def eat (c : Cursor) (symbol : String) : Bool × Cursor :=
  if c.peek == symbol then (true, c.advance symbol.length) else (false, c)

/-- The complaint about this place. -/
def failure (c : Cursor) (cause : ParseError) : ParseFailure :=
  ⟨.full, String.ofList c.text, cause⟩

/-- Takes the symbol, which has to be the next one. -/
def expect (c : Cursor) (symbol : String) : Except ParseFailure Cursor :=
  match c.eat symbol with
  | (true, c) => .ok c
  | (false, c) => .error (c.failure (.expected symbol c.position c.peek))

/-- Reads a name. -/
def readName (c : Cursor) : Except ParseFailure (String × Cursor) :=
  match c.rest with
  | x :: more =>
    if Text.opensName x then
      let word := x :: more.takeWhile Text.continuesName
      .ok (String.ofList word, c.advance word.length)
    else .error (c.failure (.expectedName c.position))
  | [] => .error (c.failure (.expectedName c.position))

end Cursor

end AnnealProver
