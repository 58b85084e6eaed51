import SwaggerClient.Text.Case

/-!
# URL templates

A URL template is text with placeholders: a placeholder runs from an opening
brace to the first closing brace after it.  A template is read once into pieces,
and its placeholders, the identifier made of it and the expression that fills it
in are all read off the pieces.
-/

namespace SwaggerClient.UrlTemplate

/-- A part of a URL template. -/
inductive Piece where
  /-- One character that stands for itself. -/
  | char (c : Char)
  /-- A placeholder with the name between its braces. -/
  | placeholder (name : List Char)
  deriving DecidableEq, Repr

/-- The pieces of the rest of a template; inside an open placeholder its name so
far is given.  A brace that is never closed is text, and so is all after it. -/
def scan : Option (List Char) → List Char → List Piece
  | none, [] => []
  | some name, [] => .char '{' :: name.map .char
  | none, c :: cs => if c = '{' then scan (some []) cs else .char c :: scan none cs
  | some name, c :: cs =>
    if c = '}' then .placeholder name :: scan none cs else scan (some (name ++ [c])) cs

/-- The pieces of a template. -/
def pieces (url : String) : List Piece :=
  scan none url.toList

/-- The name in a piece, unless it is text or an empty placeholder. -/
def Piece.name? : Piece → Option String
  | .char _ => none
  | .placeholder name => if name.isEmpty then none else some (String.ofList name)

/-- The names of the placeholders of a template in order, without empty ones. -/
def placeholders (url : String) : List String :=
  (pieces url).filterMap Piece.name?

/-- The group of a template: its first segment that is not empty, else `root`. -/
def group (url : String) : String :=
  ((Text.split '/' url).find? fun segment => !segment.isEmpty).getD "root"

/-- Slash, hyphen and dot part the words of a template. -/
def wordBreak (c : Char) : Char :=
  if c = '/' ∨ c = '-' ∨ c = '.' then '_' else c

/-- A piece as words of an identifier; the word `by` introduces a placeholder. -/
def Piece.words : Piece → List Char
  | .char c => [wordBreak c]
  | .placeholder name => "by_".toList ++ name.map wordBreak

/-- The characters of a template without its first segment `api`. -/
def withoutApi (url : List Char) : List Char :=
  Text.joinWith ['/'] ((Text.splitOn '/' url).erase "api".toList)

/-- The identifier made of a template: its words, capitalised and joined. -/
def identifier (url : String) : String :=
  String.ofList (Text.pascalChars ((scan none (withoutApi url.toList)).flatMap Piece.words))

end SwaggerClient.UrlTemplate
