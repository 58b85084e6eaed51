import SwaggerClient.Text.Comment
import SwaggerClient.Text.Split

/-!
# Source fragments

A fragment is a piece of generated source that does not know how deep it will
stand.  Its text at a depth is written line by line: a line that holds something
is indented by two spaces for every level, and an empty line stays empty.
-/

namespace SwaggerClient.Code

/-- A piece of generated source. -/
inductive Fragment where
  /-- Text ended by a line feed. -/
  | line (text : String)
  /-- Text written as it is, without indentation or line feed. -/
  | raw (text : String)
  /-- Fragments one level deeper. -/
  | indent (body : List Fragment)
  /-- A header line, a body one level deeper and, if given, a closing line. -/
  | block (header : String) (body : List Fragment) (close : Option String)
  /-- A documentation comment. -/
  | doc (text : String)
  deriving Inhabited, Repr

/-- The blanks in front of a line at a depth. -/
def blanks (depth : Nat) : List Char :=
  List.replicate (2 * depth) ' '

/-- One line at a depth; an empty line has no blanks. -/
def lineAt (depth : Nat) (line : List Char) : List Char :=
  if line.isEmpty then ['\n'] else blanks depth ++ line ++ ['\n']

/-- Text at a depth, every line of it indented and the last one ended. -/
def textAt (depth : Nat) (text : List Char) : List Char :=
  (Text.splitOn '\n' text).flatMap (lineAt depth)

/-- A documentation comment at a depth: on one line if its text is, else with a
star in front of every line. -/
def docAt (depth : Nat) (text : List Char) : List Char :=
  let safe := Text.escapeCommentChars text
  if safe.contains '\n' then
    textAt depth "/**".toList
      ++ (Text.lineList safe).flatMap (fun line => textAt depth (" * ".toList ++ line))
      ++ textAt depth " */".toList
  else textAt depth ("/** ".toList ++ safe ++ " */".toList)

mutual

/-- The text of a fragment at a depth. -/
def Fragment.chars (depth : Nat) : Fragment → List Char
  | .line text => textAt depth text.toList
  | .raw text => text.toList
  | .indent body => charsOfAll (depth + 1) body
  | .block header body close =>
    textAt depth header.toList ++ charsOfAll (depth + 1) body
      ++ (match close with
          | none => []
          | some close => textAt depth close.toList)
  | .doc text => docAt depth text.toList

/-- The text of fragments one after the other at a depth. -/
def charsOfAll (depth : Nat) : List Fragment → List Char
  | [] => []
  | fragment :: fragments => fragment.chars depth ++ charsOfAll depth fragments

end

/-- The text of fragments at the left margin. -/
def render (fragments : List Fragment) : String :=
  String.ofList (charsOfAll 0 fragments)

end SwaggerClient.Code
