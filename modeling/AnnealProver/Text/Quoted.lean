import AnnealProver.Text.Printable
import AnnealProver.Text.Cut

/-!
# Quoted texts

A quoted text stands in single quotes, or in double quotes when it holds a single quote and no
double one.  The quote in use and the backslash are escaped, tab and the line ends have their
short forms, and characters without a glyph are written by number: two digits up to U+00FF, four up
to U+FFFF, eight beyond.
-/

namespace AnnealProver.Text

/-- A number in hexadecimal, filled up with zeros to the given width. -/
def hex (width : Nat) (n : Nat) : String :=
  let digits := String.ofList (Nat.toDigits 16 n)
  repeated (width - digits.length) "0" ++ digits

/-- One character inside the given quotes. -/
def escape (quote c : Char) : String :=
  if c == quote || c == '\\' then "\\" ++ c.toString
  else if c == '\t' then "\\t"
  else if c == '\n' then "\\n"
  else if c == '\r' then "\\r"
  else if isPrintable c then c.toString
  else if c.toNat ≤ 0xff then "\\x" ++ hex 2 c.toNat
  else if c.toNat ≤ 0xffff then "\\u" ++ hex 4 c.toNat
  else "\\U" ++ hex 8 c.toNat

/-- The text in quotes. -/
def quoted (text : String) : String :=
  let quote := if text.toList.contains '\'' && !text.toList.contains '"' then '"' else '\''
  quote.toString ++ String.join (text.toList.map (escape quote)) ++ quote.toString

/-- A list of texts, each in quotes. -/
def quotedList (texts : List String) : String :=
  "[" ++ String.intercalate ", " (texts.map quoted) ++ "]"

end AnnealProver.Text
