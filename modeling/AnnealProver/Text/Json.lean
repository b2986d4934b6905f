import AnnealProver.Text.Quoted

/-!
# Stored values

Texts, lists and records are stored in the JSON format with two blanks for every level.  Quotes,
backslashes and control characters are escaped; all other characters stand for themselves.
-/

namespace AnnealProver.Text

/-- A value that can be stored. -/
inductive Json where
  | text (s : String)
  | array (items : List Json)
  | object (fields : List (String × Json))

namespace Json

/-- A character inside quotes. -/
def escaped (c : Char) : String :=
  if c == '"' then "\\\""
  else if c == '\\' then "\\\\"
  else if c == '\n' then "\\n"
  else if c == '\r' then "\\r"
  else if c == '\t' then "\\t"
  else if c.toNat == 8 then "\\b"
  else if c.toNat == 12 then "\\f"
  else if c.toNat < 32 then "\\u" ++ hex 4 c.toNat
  else c.toString

/-- A text in quotes. -/
def quotedText (s : String) : String :=
  "\"" ++ String.join (s.toList.map escaped) ++ "\""

/-- Items between brackets, one to a line, at a level. -/
def block (level : Nat) (first last : String) (items : List String) : String :=
  let blanks (n : Nat) := String.ofList (List.replicate (2 * n) ' ')
  if items.isEmpty then first ++ last
  else
    first ++ "\n" ++ String.intercalate ",\n" (items.map (blanks (level + 1) ++ ·)) ++ "\n" ++
      blanks level ++ last

mutual

/-- The value as it is stored at a level. -/
def render (level : Nat) : Json → String
  | text s => quotedText s
  | array items => block level "[" "]" (renderItems (level + 1) items)
  | object fields => block level "\x7b" "\x7d" (renderFields (level + 1) fields)

/-- Values as they are stored at a level. -/
def renderItems (level : Nat) : List Json → List String
  | [] => []
  | item :: rest => render level item :: renderItems level rest

/-- Named values as they are stored at a level. -/
def renderFields (level : Nat) : List (String × Json) → List String
  | [] => []
  | (name, value) :: rest =>
    (quotedText name ++ ": " ++ render level value) :: renderFields level rest

end

/-- The value as it is stored. -/
def pretty (j : Json) : String :=
  j.render 0

end Json

end AnnealProver.Text
