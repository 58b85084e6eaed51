import SwaggerClient.Proofs.Json.Number
import SwaggerClient.Proofs.Name.Identifier
import SwaggerClient.Proofs.TypeExpr.Normal

/-!
# Reading types

A reader for the grammar in which types are written.  Brackets behind an operand bind
tighter than `&`, and `&` binds tighter than `|`; a comment ends at its first `*/` and a
quoted literal at its first quote that no backslash escapes.  Every reader takes the
first part of a text and gives what it says together with the rest.
-/

namespace SwaggerClient.TypeText

/-- A reader of types. -/
abbrev Reader := List Char → Option (TypeExpr String × List Char)

/-! ## Tokens -/

/-- The text behind a character that must come first. -/
def expect (c : Char) : List Char → Option (List Char)
  | [] => none
  | d :: cs => if d = c then some cs else none

/-- The text behind a line feed, should there be one. -/
def skipLine : List Char → List Char
  | '\n' :: cs => cs
  | cs => cs

/-- The text behind the end of a comment. -/
def afterComment : List Char → Option (List Char)
  | [] => none
  | '*' :: '/' :: cs => some cs
  | _ :: cs => afterComment cs

/-- The text behind a comment, should there be one. -/
def skipComment : List Char → Option (List Char)
  | '/' :: '*' :: cs => (afterComment cs).map skipLine
  | cs => some cs

/-- Reads the rest of a quoted literal. -/
def readQuoted : List Char → Option (List Char × List Char)
  | [] => none
  | '\'' :: cs => some ([], cs)
  | '\\' :: '\\' :: cs => (readQuoted cs).map fun (value, rest) => ('\\' :: value, rest)
  | '\\' :: '\'' :: cs => (readQuoted cs).map fun (value, rest) => ('\'' :: value, rest)
  | '\\' :: _ => none
  | c :: cs => (readQuoted cs).map fun (value, rest) => (c :: value, rest)

/-- The characters of names and numbers. -/
def isWordChar (c : Char) : Bool :=
  isIdentifierChar c || c == '.' || c == '+' || c == '-'

/-- The type of a name: a primitive type, or else a reference. -/
def nameType (name : String) : TypeExpr String :=
  match [Primitive.string, .number, .boolean, .unknown].find? (·.name == name) with
  | some kind => .primitive kind
  | none => .reference name

/-- The type that a word is for. -/
def wordType (word : List Char) : Option (TypeExpr String) :=
  if isNumberSpelling word then some (.literals [.number (String.ofList word)])
  else if isIdentifierChars word then some (nameType (String.ofList word))
  else none

/-- Reads a name or a number. -/
def readWord : Reader := fun cs =>
  (wordType (cs.takeWhile isWordChar)).map fun type => (type, cs.dropWhile isWordChar)

/-- Reads the key of a member. -/
def readKey : List Char → Option (String × List Char)
  | '\'' :: cs => (readQuoted cs).map fun (name, rest) => (String.ofList name, rest)
  | cs =>
    let name := cs.takeWhile isIdentifierChar
    if isIdentifierChars name then some (String.ofList name, cs.dropWhile isIdentifierChar)
    else none

/-- Reads the mark of an optional member. -/
def readMark : List Char → Bool × List Char
  | '?' :: cs => (true, cs)
  | cs => (false, cs)

/-- The key that stands for any other key. -/
def indexKey : List Char :=
  "[key:string]:".toList

/-- The text behind the key that stands for any other key. -/
def afterIndexKey (cs : List Char) : Option (List Char) :=
  if indexKey.isPrefixOf cs then some (cs.drop indexKey.length) else none

/-! ## Types -/

section Types

variable (inner : Reader)

/-- Reads a member of an object type. -/
def readMember (cs : List Char) : Option (Member (TypeExpr String) × List Char) := do
  let cs ← skipComment cs
  let (name, cs) ← readKey cs
  let (optional, cs) := readMark cs
  let cs ← expect ':' cs
  let (type, cs) ← inner cs
  return (⟨name, optional, none, type⟩, cs)

/-- The text behind a closing brace, which may be on a line of its own. -/
def readEnd (cs : List Char) : Option (List Char) :=
  expect '\x7d' (skipLine cs)

/-- Reads the rest of an object type behind its opening brace or a member of it: the end,
or the type of the values under any other key and then the end, or else one more member on
a line of its own. -/
def readBody : Nat → List Char →
    Option ((List (Member (TypeExpr String)) × Option (TypeExpr String)) × List Char)
  | 0, _ => none
  | steps + 1, cs =>
    match readEnd cs with
    | some cs => some (([], none), cs)
    | none =>
      match afterIndexKey (skipLine cs) with
      | some cs => do
        let (value, cs) ← inner cs
        let cs ← readEnd cs
        return (([], some value), cs)
      | none => do
        let cs ← expect '\n' cs
        let (m, cs) ← readMember inner cs
        let ((members, index), cs) ← readBody steps cs
        return ((m :: members, index), cs)

/-- Reads a type that no operator stands in. -/
def readPrimary : Reader
  | '(' :: cs => do
    let (type, cs) ← inner cs
    let cs ← expect ')' cs
    return (type, cs)
  | '\x7b' :: cs => do
    let ((members, index), cs) ← readBody inner (cs.length + 1) cs
    return (.object members index, cs)
  | '\'' :: cs => do
    let (value, cs) ← readQuoted cs
    return (.literals [.text (String.ofList value)], cs)
  | cs => readWord cs

/-- The arrays that brackets directly behind a type make of it. -/
def readSuffixes (type : TypeExpr String) : List Char → TypeExpr String × List Char
  | '[' :: ']' :: cs => readSuffixes (.array type) cs
  | cs => (type, cs)

/-- Reads an operand with the brackets behind it. -/
def readPostfix : Reader := fun cs => do
  let (type, cs) ← readPrimary inner cs
  return readSuffixes type cs

/-- Reads types with a separator between them, at most as many as there are steps. -/
def readSeparated (sep : Char) (item : Reader) : Nat → List Char →
    Option (List (TypeExpr String) × List Char)
  | 0, _ => none
  | steps + 1, cs => do
    let (type, cs) ← item cs
    match expect sep cs with
    | none => return ([type], cs)
    | some cs => do
      let (types, cs) ← readSeparated sep item steps cs
      return (type :: types, cs)

/-- Reads operands with `&` between them. -/
def readIntersection : Reader := fun cs => do
  let (types, cs) ← readSeparated '&' (readPostfix inner) (cs.length + 1) cs
  return (.intersectionOf types, cs)

/-- Reads intersections with `|` between them. -/
def readUnion : Reader := fun cs => do
  let (types, cs) ← readSeparated '|' (readIntersection inner) (cs.length + 1) cs
  return (.unionOf types, cs)

end Types

/-- Reads a type.  The bound says how deep types may stand inside each other. -/
def readType : Nat → Reader
  | 0 => fun _ => none
  | bound + 1 => readUnion (readType bound)

/-- The type that a whole text is for.  No type is deeper than its text is long. -/
def read (text : String) : Option (TypeExpr String) := do
  let (type, cs) ← readType (text.toList.length + 1) text.toList
  if cs.isEmpty then some type else none

-- Brackets bind tightest, and `|` binds least.
example : (read "'a|b'|A&(B|number)[]").map TypeExpr.render = some "'a|b'|(A&(B|number)[])" := by
  decide +kernel

end SwaggerClient.TypeText
