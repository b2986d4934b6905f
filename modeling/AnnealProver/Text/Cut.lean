import AnnealProver.Text.Blank

/-!
# Cutting texts

Texts are cut at a separator, searched for a part, and freed of characters at their ends.  All of
it is done on lists of characters, one step per character, so that each operation has ordinary
equations.
-/

namespace AnnealProver.Text

/-- Cuts at each occurrence of the separator, from the left.  `skip` counts the characters of an
occurrence that are still to be passed, and `piece` holds the current piece in reverse. -/
def cut (separator : List Char) : (skip : Nat) → (piece : List Char) → List Char →
    List (List Char)
  | _, piece, [] => [piece.reverse]
  | skip + 1, piece, _ :: rest => cut separator skip piece rest
  | 0, piece, c :: rest =>
    if separator.isPrefixOf (c :: rest) then
      piece.reverse :: cut separator (separator.length - 1) [] rest
    else
      cut separator 0 (c :: piece) rest

/-- The pieces between the occurrences of a nonempty separator. -/
def split (separator text : String) : List String :=
  (cut separator.toList 0 [] text.toList).map String.ofList

/-- The pieces between the separators, freed of blanks; pieces of blanks only are dropped. -/
def fields (separator text : String) : List String :=
  ((split separator text).filter fun piece => !blank piece).map trim

/-- Whether the part occurs somewhere in the characters. -/
def occursIn (part : List Char) : List Char → Bool
  | [] => part.isEmpty
  | c :: rest => part.isPrefixOf (c :: rest) || occursIn part rest

/-- Whether the part occurs in the text. -/
def occurs (part text : String) : Bool :=
  occursIn part.toList text.toList

/-- Whether the text begins with the given one. -/
def begins (start text : String) : Bool :=
  start.toList.isPrefixOf text.toList

/-- Puts the new text in place of each occurrence of the old one. -/
def replace (old new text : String) : String :=
  String.intercalate new (split old text)

/-- Takes characters of a kind off both ends. -/
def trimWhere (p : Char → Bool) (text : String) : String :=
  String.ofList ((text.toList.dropWhile p).reverse.dropWhile p).reverse

/-- Takes parentheses of either kind off both ends. -/
def trimParens (text : String) : String :=
  trimWhere (fun c => c == '(' || c == ')') text

/-- The first characters of a text. -/
def left (count : Nat) (text : String) : String :=
  String.ofList (text.toList.take count)

/-- The text without its first characters. -/
def afterFirst (count : Nat) (text : String) : String :=
  String.ofList (text.toList.drop count)

/-- The text written so many times in a row. -/
def repeated (count : Nat) (text : String) : String :=
  String.join (List.replicate count text)

/-- Lines joined by line breaks. -/
def lines (rows : List String) : String :=
  String.intercalate "\n" rows

/-- Lines as they are printed, each with its line break. -/
def printed (rows : List String) : String :=
  String.join (rows.map (· ++ "\n"))

end AnnealProver.Text
