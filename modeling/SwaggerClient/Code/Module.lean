import SwaggerClient.Code.Fragment

/-!
# Module files

A module file is a preamble and a body of elements.  One empty line stands
between the preamble and the body and between two elements of the body.
-/

namespace SwaggerClient.Code

/-- Code that is already written, line by line and without empty lines at its
end, so that the file decides the space between elements. -/
def verbatim (code : String) : List Fragment :=
  (Text.lines (Text.trimEndLines code)).map .line

/-- A file of generated code. -/
structure Module where
  /-- What stands at the top, element by element. -/
  preamble : List (List Fragment) := []
  /-- The elements below. -/
  body : List (List Fragment) := []
  deriving Repr

/-- Elements with an empty line between them. -/
def separated : List (List Fragment) → List Char
  | [] => []
  | [element] => charsOfAll 0 element
  | element :: elements => charsOfAll 0 element ++ '\n' :: separated elements

/-- The text of a module file. -/
def Module.render (m : Module) : String :=
  let gap := if m.preamble.isEmpty || m.body.isEmpty then [] else ['\n']
  String.ofList (m.preamble.flatMap (charsOfAll 0) ++ gap ++ separated m.body)

end SwaggerClient.Code
