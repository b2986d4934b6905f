import AnnealProver.Formula.Basic
import AnnealProver.Text.Blank
import AnnealProver.Text.Word

/-!
# Tokens of a formula

A written formula is a row of tokens: connectives, the tilde, parentheses and names.  A character
that belongs to none of them becomes a **stray** token, so that cutting a text into tokens never
fails and the grammar decides what is wrong.  Each token keeps its position in the text.
-/

namespace AnnealProver

/-- The smallest meaningful parts of a written formula. -/
inductive Token where
  | op (connective : Connective)
  | tilde
  | opening
  | closing
  | name (text : List Char)
  | stray (c : Char)
deriving DecidableEq

/-- The symbol that is quoted when the token stands where another was expected: a name is quoted
by its first character. -/
def Token.symbol : Token → String
  | op c => c.symbol
  | tilde => "~"
  | opening => "("
  | closing => ")"
  | name cs => String.ofList (cs.take 1)
  | stray c => c.toString

/-- A token with the position of its first character. -/
structure Placed where
  token : Token
  position : Nat

/-- The token that starts with the given character, and the characters behind it. -/
def lexeme (opensName : Char → Bool) : Char → List Char → Token × List Char
  | '~', rest => (.tilde, rest)
  | '(', rest => (.opening, rest)
  | ')', rest => (.closing, rest)
  | '&', rest => (.op .conj, rest)
  | '|', rest => (.op .disj, rest)
  | '-', '>' :: rest => (.op .impl, rest)
  | '<', '-' :: '>' :: rest => (.op .iff, rest)
  | c, rest =>
    if opensName c then
      (.name (c :: rest.takeWhile Text.continuesName), rest.dropWhile Text.continuesName)
    else (.stray c, rest)

/-- Cuts characters into tokens, passing over blanks.  `total` is the length of the whole text, so
a token's position is what is left subtracted from it; `fuel` bounds the number of tokens. -/
def tokensOf (opensName isBlank : Char → Bool) (total : Nat) : (fuel : Nat) → List Char →
    List Placed
  | 0, _ => []
  | fuel + 1, cs =>
    match cs.dropWhile isBlank with
    | [] => []
    | c :: rest =>
      let (token, behind) := lexeme opensName c rest
      ⟨token, total - (rest.length + 1)⟩ :: tokensOf opensName isBlank total fuel behind

/-- The tokens of a text. -/
def tokens (opensName isBlank : Char → Bool) (cs : List Char) : List Placed :=
  tokensOf opensName isBlank cs.length cs.length cs

end AnnealProver
