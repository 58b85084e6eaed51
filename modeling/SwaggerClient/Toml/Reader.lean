import SwaggerClient.Toml.Quoted
import SwaggerClient.Toml.Scalar

/-!
# Reading a configuration text

A configuration text is a list of lines: headers of tables, and keys with values
that belong to the table of the last header.  The text is refused as a whole when
anything in it is wrong.
-/

namespace SwaggerClient.Toml

/-- The rest of a text behind a comment, if one comes next. -/
def skipComment : List Char → Option (List Char)
  | '#' :: cs =>
    let comment := cs.takeWhile fun c => c != '\n' && c != '\r'
    if comment.any isControl then none else some (cs.drop comment.length)
  | cs => some cs

/-- The rest of a text behind blanks, line ends and comments. -/
def skipTrivia : Nat → List Char → Option (List Char)
  | 0, cs => some cs
  | steps + 1, cs => do
    let cs ← skipComment (skipBlanks cs)
    match lineEnd? cs with
    | some rest => skipTrivia steps rest
    | none => return cs

/-- Whether a key may hold a character without quotes. -/
def isKeyChar (c : Char) : Bool :=
  c.isAlphanum || c == '_' || c == '-'

/-- One part of a key. -/
def readKeyPart (cs : List Char) : Option (String × List Char) :=
  match cs with
  | '"' :: rest => (readLineString '"' rest.length rest).map fun (key, cs) => (.ofList key, cs)
  | '\'' :: rest => (readLineString '\'' rest.length rest).map fun (key, cs) => (.ofList key, cs)
  | cs =>
    let key := cs.takeWhile isKeyChar
    if key.isEmpty then none else some (.ofList key, cs.drop key.length)

/-- The greatest number of parts of a key, and of brackets that may be open at once. -/
def maxNesting : Nat := 80

/-- A key with dots between its parts, of which it may have so many. -/
def readParts : Nat → List Char → Option (List String × List Char)
  | 0, _ => none
  | left + 1, cs => do
    let (part, cs) ← readKeyPart cs
    match skipBlanks cs with
    | '.' :: cs => do
      let (parts, cs) ← readParts left (skipBlanks cs)
      return (part :: parts, cs)
    | cs => return ([part], cs)

/-- A key. -/
def readKey (cs : List Char) : Option (List String × List Char) :=
  readParts maxNesting cs

/-- The word at the front of a text.  A date and a time may have a blank between
them. -/
def readWord (cs : List Char) : List Char × List Char :=
  let word := cs.takeWhile isWordChar
  let rest := cs.drop word.length
  match readDate word, rest with
  | some [], ' ' :: rest' =>
    let time := rest'.takeWhile isWordChar
    if (readField 2 0 23 time).isSome then (word ++ ' ' :: time, rest'.drop time.length)
    else (word, rest)
  | _, _ => (word, rest)

mutual

/-- The value at the front of a text, in which some more brackets may be opened. -/
def readValue : Nat → Nat → List Char → Option (Value × List Char)
  | 0, _, _ => none
  | steps + 1, left, cs =>
    match cs, left with
    | '"' :: _, _ | '\'' :: _, _ => (readString cs).map fun (text, cs) => (.string text, cs)
    | '[' :: cs, left + 1 => do
      let (items, cs) ← readItems steps left cs
      return (.array items, cs)
    | '{' :: cs, left + 1 => do
      let (entries, cs) ← readEntries steps left [] cs
      return (.table .inline entries, cs)
    | cs, _ => do
      let (word, cs) := readWord cs
      return (← wordValue? word, cs)

/-- The items of an array up to its closing bracket. -/
def readItems : Nat → Nat → List Char → Option (List Value × List Char)
  | 0, _, _ => none
  | steps + 1, left, cs => do
    match ← skipTrivia cs.length cs with
    | ']' :: cs => return ([], cs)
    | cs => do
      let (item, cs) ← readValue steps left cs
      match ← skipTrivia cs.length cs with
      | ']' :: cs => return ([item], cs)
      | ',' :: cs => do
        let (items, cs) ← readItems steps left cs
        return (item :: items, cs)
      | _ => none

/-- The entries of a table between braces, added to those read before.  Line ends and
comments may stand around each key, sign and value. -/
def readEntries : Nat → Nat → Entries → List Char → Option (Entries × List Char)
  | 0, _, _, _ => none
  | steps + 1, left, entries, cs => do
    match ← skipTrivia cs.length cs with
    | '}' :: cs => return (entries, cs)
    | cs => do
      let (key, cs) ← readKey cs
      match ← skipTrivia cs.length cs with
      | '=' :: cs => do
        let (value, cs) ← readValue steps left (← skipTrivia cs.length cs)
        let entries ← Entries.setDotted value key entries
        match ← skipTrivia cs.length cs with
        | '}' :: cs => return (entries, cs)
        | ',' :: cs => readEntries steps left entries cs
        | _ => none
      | _ => none

end

/-- What has been read: all tables, and the path of the table that is open. -/
structure Progress where
  entries : Entries := []
  path : List String := []

/-- Reads what stands on a line in front of its comment. -/
def readLine (p : Progress) (cs : List Char) : Option (Progress × List Char) :=
  match cs with
  | '[' :: '[' :: cs => do
    let (path, cs) ← readKey (skipBlanks cs)
    match cs with
    | ']' :: ']' :: cs =>
      return (⟨← Entries.openPath Entries.openTables path p.entries, path⟩, cs)
    | _ => none
  | '[' :: cs => do
    let (path, cs) ← readKey (skipBlanks cs)
    match cs with
    | ']' :: cs => return (⟨← Entries.openPath Entries.openTable path p.entries, path⟩, cs)
    | _ => none
  | cs => do
    let (key, cs) ← readKey cs
    match cs with
    | '=' :: cs => do
      let cs := skipBlanks cs
      let (value, cs) ← readValue (2 * cs.length + 2) maxNesting cs
      return ({ p with entries := ← Entries.modify (Entries.setDotted value key) p.path p.entries },
        cs)
    | _ => none

/-- Reads lines to the end of a text. -/
def readLines : Nat → Progress → List Char → Option Entries
  | 0, _, _ => none
  | steps + 1, p, cs => do
    let cs := skipBlanks cs
    let (p, cs) ←
      if cs.isEmpty || cs.head? == some '#' || (lineEnd? cs).isSome then some (p, cs)
      else readLine p cs
    let cs ← skipComment (skipBlanks cs)
    match cs, lineEnd? cs with
    | [], _ => return p.entries
    | _, some rest => readLines steps p rest
    | _, none => none

/-- The entries of a configuration text, unless something is wrong in it. -/
def read (text : String) : Option Entries :=
  let cs :=
    match text.toList with
    | '\ufeff' :: cs => cs
    | cs => cs
  readLines (cs.length + 1) {} cs

end SwaggerClient.Toml
