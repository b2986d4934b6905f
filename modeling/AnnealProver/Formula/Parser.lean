import AnnealProver.Formula.Token
import AnnealProver.Text.Cut

/-!
# Reading formulas

The grammar has one level per connective, loosest first, and each level groups to the left:

* equivalence, then implication, then disjunction, then conjunction, then negation, and at the
  bottom names and formulas in parentheses.

There are two ways of writing.  The **full** one has all four connectives, lets blanks stand
between tokens and opens names with a letter or an underscore.  The **compact** one has no
equivalence, throws spaces away before it looks at anything, so that a space does not divide two
names, and lets names open with a digit; it comes with two wordings of its complaints.
-/

namespace AnnealProver

/-- The ways of writing a formula. -/
inductive Dialect where
  | full
  | plain
  | located
deriving DecidableEq

/-- What a way of writing consists of. -/
structure Grammar where
  /-- The connectives, loosest first. -/
  levels : List Connective
  opensName : Char → Bool
  isBlank : Char → Bool

/-- Four connectives, with blanks between the tokens. -/
def Grammar.full : Grammar :=
  ⟨[.iff, .impl, .disj, .conj], Text.opensName, Text.isBlank⟩

/-- Three connectives, and no blanks. -/
def Grammar.compact : Grammar :=
  ⟨[.impl, .disj, .conj], Text.continuesName, fun _ => false⟩

/-- Why a text is no formula.  Positions count characters from the front. -/
inductive ParseError where
  | empty
  | expectedName (position : Nat)
  | expected (symbol : String) (position : Nat) (found : String)
  | trailing (position : Nat)
deriving DecidableEq

/-- Where the next token stands; behind the last one, that is the end of the text. -/
def positionOf (finish : Nat) : List Placed → Nat
  | [] => finish
  | t :: _ => t.position

/-- The symbol of the next token; nothing at the end. -/
def symbolOf : List Placed → String
  | [] => ""
  | t :: _ => t.token.symbol

mutual

/-- Reads a formula at the given levels: the first level's connective is the loosest that may
occur outside parentheses, and with no level left there is a negation, a parenthesis or a name. -/
def Grammar.readAt (g : Grammar) (finish : Nat) : (fuel : Nat) → List Connective →
    List Placed → Except ParseError (Formula × List Placed)
  | 0, _, ts => .error (.expectedName (positionOf finish ts))
  | fuel + 1, c :: tighter, ts =>
    match g.readAt finish fuel tighter ts with
    | .error e => .error e
    | .ok (f, rest) => g.readMore finish fuel c tighter f rest
  | fuel + 1, [], ts =>
    match ts with
    | ⟨.tilde, _⟩ :: rest =>
      match g.readAt finish fuel [] rest with
      | .error e => .error e
      | .ok (f, rest) => .ok (.neg f, rest)
    | ⟨.opening, _⟩ :: rest =>
      match g.readAt finish fuel g.levels rest with
      | .error e => .error e
      | .ok (f, ⟨.closing, _⟩ :: rest) => .ok (f, rest)
      | .ok (_, rest) => .error (.expected ")" (positionOf finish rest) (symbolOf rest))
    | ⟨.name cs, _⟩ :: rest => .ok (.var (String.ofList cs), rest)
    | _ => .error (.expectedName (positionOf finish ts))

/-- Goes on at one level as long as its connective follows, grouping to the left. -/
def Grammar.readMore (g : Grammar) (finish : Nat) : (fuel : Nat) → Connective →
    List Connective → Formula → List Placed → Except ParseError (Formula × List Placed)
  | 0, _, _, _, ts => .error (.expectedName (positionOf finish ts))
  | fuel + 1, c, tighter, left, ts =>
    match ts with
    | ⟨.op d, _⟩ :: rest =>
      if d = c then
        match g.readAt finish fuel tighter rest with
        | .error e => .error e
        | .ok (right, rest) => g.readMore finish fuel c tighter (c.apply left right) rest
      else .ok (left, ts)
    | _ => .ok (left, ts)

end

/-- Reads a whole text of the grammar.  Every call passes at most one level or one token, so the
fuel covers every text. -/
def Grammar.read (g : Grammar) (cs : List Char) : Except ParseError Formula :=
  let ts := tokens g.opensName g.isBlank cs
  match g.readAt cs.length ((g.levels.length + 2) * (ts.length + 1)) g.levels ts with
  | .error e => .error e
  | .ok (f, []) => .ok f
  | .ok (_, t :: _) => .error (.trailing t.position)

/-- The characters that the dialect's grammar gets to see. -/
def Dialect.seen : Dialect → String → List Char
  | full, text => text.toList
  | plain, text | located, text => text.toList.filter (· != ' ')

/-- Why a text could not be read, with the text itself. -/
structure ParseFailure where
  dialect : Dialect
  text : String
  cause : ParseError

/-- The complaint in words. -/
def ParseFailure.message (e : ParseFailure) : String :=
  let text := e.text
  let behind := fun position => String.ofList ((e.dialect.seen text).drop position)
  match e.dialect, e.cause with
  | .full, .empty => "Empty input"
  | .full, .expectedName position => s!"Expected identifier at position {position} in '{text}'"
  | .full, .expected symbol position found =>
    s!"Expected '{symbol}' at position {position}, got '{found}' in '{text}'"
  | .full, .trailing position =>
    let rest := behind position
    s!"Unexpected input at position {position}: '{rest}' in '{text}'"
  | .located, .expectedName position =>
    s!"Expected variable or '(' or '~' at position {position}"
  | .located, .trailing position =>
    let rest := behind position
    s!"Unexpected input at '{rest}' in '{text}'"
  | .plain, .trailing position =>
    let rest := behind position
    s!"Unexpected input at {rest} in '{text}'"
  | _, .expected _ _ _ => "Missing closing parenthesis"
  | _, _ => "Expected variable or '(' or '~'"

/-- The grammar of the dialect on the characters it gets to see. -/
def Dialect.read : Dialect → String → Except ParseError Formula
  | full, text => if Text.blank text then .error .empty else Grammar.full.read text.toList
  | plain, text => Grammar.compact.read (plain.seen text)
  | located, text => Grammar.compact.read (located.seen text)

/-- Reads a formula. -/
def Formula.parse (dialect : Dialect) (text : String) : Except ParseFailure Formula :=
  (dialect.read text).mapError fun cause => ⟨dialect, text, cause⟩

/-- Reads several formulas in order; the first that fails ends it. -/
def Formula.parseAll (dialect : Dialect) (texts : List String) :
    Except ParseFailure (List Formula) :=
  texts.mapM (Formula.parse dialect)

/-- Why a list of formulas in one text could not be read. -/
inductive ListFailure where
  | emptySeparator
  | formula (failure : ParseFailure)

/-- Reads the formulas between separators; pieces of blanks only are passed over. -/
def Formula.parseList (separator text : String) : Except ListFailure (List Formula) :=
  if separator.isEmpty then .error .emptySeparator
  else (Formula.parseAll .full (Text.fields separator text)).mapError .formula

end AnnealProver
