import SwaggerClient.Text.Case
import SwaggerClient.Text.Quoted

/-!
# Identifiers

Which names can stand bare in the generated code, and the names made of those
that cannot: a type name, a property key and a local binding.
-/

namespace SwaggerClient

/-- A character that an identifier may hold after its first. -/
def isIdentifierChar (c : Char) : Bool :=
  c.isAlphanum || c == '_' || c == '$'

/-- A character that an identifier may start with. -/
def isIdentifierStart (c : Char) : Bool :=
  c.isAlpha || c == '_' || c == '$'

/-- Identifiers as lists of characters: not empty, and no digit in front. -/
def isIdentifierChars : List Char → Bool
  | [] => false
  | c :: cs => isIdentifierStart c && cs.all isIdentifierChar

/-- Whether a name can be used as a bare identifier; reserved words count. -/
def isIdentifier (name : String) : Bool :=
  isIdentifierChars name.toList

/-- The words of a name for a type: every character that an identifier cannot
hold parts two words. -/
def typeWords (cs : List Char) : List Char :=
  cs.map fun c => if isIdentifierChar c then c else '_'

/-- A name that does not start with a digit and is not empty, kept; otherwise an
underscore is put in front. -/
def guardDigit : List Char → List Char
  | [] => ['_']
  | c :: cs => if c.isDigit then '_' :: c :: cs else c :: cs

/-- The type name of a definition: an identifier is kept, and any other name is
cut into words that are capitalised and joined. -/
def typeIdentifier (name : String) : String :=
  if isIdentifier name then name
  else String.ofList (guardDigit (Text.pascalChars (typeWords name.toList)))

/-- A property name as it is written in an object type or pattern. -/
def propertyKey (name : String) : String :=
  if isIdentifier name then name else Text.quote name

/-- Words that cannot name a local binding. -/
def reservedWords : List String :=
  ["arguments", "await", "break", "case", "catch", "class", "const", "continue",
   "debugger", "default", "delete", "do", "else", "enum", "eval", "export", "extends",
   "false", "finally", "for", "function", "if", "implements", "import", "in",
   "instanceof", "interface", "let", "new", "null", "package", "private", "protected",
   "public", "return", "static", "super", "switch", "this", "throw", "true", "try",
   "typeof", "var", "void", "while", "with", "yield"]

/-- The words of a name for a binding: letters, digits and dollar signs make
words, and all else parts them. -/
def bindingWords (cs : List Char) : List Char :=
  cs.map fun c => if c.isAlphanum || c == '$' then c else '_'

/-- Joined words as a binding: a digit in front gets an underscore before it, and
a capital in front is made small. -/
def lowerFirst : List Char → List Char
  | [] => ['_']
  | c :: cs => if c.isDigit then '_' :: c :: cs else c.toLower :: cs

/-- A binding for a name, reserved or not. -/
def bindingBase (name : String) : String :=
  if isIdentifier name then name
  else String.ofList (lowerFirst (Text.pascalChars (bindingWords name.toList)))

/-- The local variable that holds the value of a name: an identifier is kept, any
other name is joined from its words, and a reserved word is followed by an
underscore. -/
def bindingName (name : String) : String :=
  let binding := bindingBase name
  if reservedWords.contains binding then binding ++ "_" else binding

end SwaggerClient
