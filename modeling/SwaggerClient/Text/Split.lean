/-!
# Splitting text

Cutting text at a separator, and cutting it into lines.  Everything is defined
on lists of characters; the versions on `String` only convert.
-/

namespace SwaggerClient.Text

/-- The pieces of a text between the occurrences of a separator.  There is
always at least one piece. -/
def splitOn (sep : Char) : List Char → List (List Char)
  | [] => [[]]
  | c :: cs =>
    if c = sep then [] :: splitOn sep cs
    else
      match splitOn sep cs with
      | [] => [[c]]
      | piece :: pieces => (c :: piece) :: pieces

/-- The pieces written one after the other with a separator between them. -/
def joinWith (sep : List Char) : List (List Char) → List Char
  | [] => []
  | [piece] => piece
  | piece :: pieces => piece ++ sep ++ joinWith sep pieces

theorem splitOn_ne_nil (sep : Char) (cs : List Char) : splitOn sep cs ≠ [] := by
  cases cs with
  | nil => simp [splitOn]
  | cons c cs =>
    simp only [splitOn]
    split
    · simp
    · split <;> simp

/-- A line without the carriage return that ends it. -/
def chompReturn (line : List Char) : List Char :=
  if line.getLast? = some '\r' then line.dropLast else line

/-- The lines among the pieces between line feeds: the last piece is a line only
when it holds something, and a line ended by a line feed also loses one
carriage return before it. -/
def linesOfPieces : List (List Char) → List (List Char)
  | [] => []
  | [last] => if last.isEmpty then [] else [last]
  | piece :: pieces => chompReturn piece :: linesOfPieces pieces

/-- The lines of a text. -/
def lineList (cs : List Char) : List (List Char) :=
  linesOfPieces (splitOn '\n' cs)

/-- The pieces of a string between the occurrences of a separator. -/
def split (sep : Char) (s : String) : List String :=
  (splitOn sep s.toList).map String.ofList

/-- The lines of a string. -/
def lines (s : String) : List String :=
  (lineList s.toList).map String.ofList

/-- A string without the line feeds at its end. -/
def trimEndLines (s : String) : String :=
  String.ofList (s.toList.reverse.dropWhile (· == '\n')).reverse

/-- A string without its first part, if it starts with that part. -/
def dropLeading? (lead s : String) : Option String :=
  if lead.toList.isPrefixOf s.toList then some (String.ofList (s.toList.drop lead.length)) else none

end SwaggerClient.Text
