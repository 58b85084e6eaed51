import SwaggerClient.Dictionary
import SwaggerClient.Json.Number

/-!
# JSON values

A JSON value with its objects as dictionaries, and its shortest text: no blanks,
and escapes only where a string cannot do without.
-/

namespace SwaggerClient

/-- A JSON value. -/
inductive Json where
  | null
  | bool (value : Bool)
  | number (value : Number)
  | string (value : String)
  | array (items : List Json)
  | object (members : List (String × Json))
  deriving Inhabited, Repr

namespace Json

/-- A hexadecimal digit in small letters. -/
def hexDigit (n : Nat) : Char :=
  Nat.digitChar n

/-- A character inside a JSON string. -/
def stringChar (c : Char) : List Char :=
  match c with
  | '"' => ['\\', '"']
  | '\\' => ['\\', '\\']
  | '\x08' => ['\\', 'b']
  | '\x0c' => ['\\', 'f']
  | '\n' => ['\\', 'n']
  | '\r' => ['\\', 'r']
  | '\t' => ['\\', 't']
  | c =>
    if c.val < 32 then ['\\', 'u', '0', '0', hexDigit (c.toNat / 16), hexDigit (c.toNat % 16)]
    else [c]

/-- A string in JSON. -/
def stringChars (s : String) : List Char :=
  '"' :: s.toList.flatMap stringChar ++ ['"']

mutual

/-- The characters of the shortest text of a value. -/
def chars : Json → List Char
  | .null => "null".toList
  | .bool b => if b then "true".toList else "false".toList
  | .number n => n.text.toList
  | .string s => stringChars s
  | .array items => '[' :: charsOfItems items ++ [']']
  | .object members => '{' :: charsOfMembers members ++ ['}']

/-- Values with commas between them. -/
def charsOfItems : List Json → List Char
  | [] => []
  | [item] => item.chars
  | item :: items => item.chars ++ ',' :: charsOfItems items

/-- Members with commas between them. -/
def charsOfMembers : List (String × Json) → List Char
  | [] => []
  | [(key, value)] => stringChars key ++ ':' :: value.chars
  | (key, value) :: members =>
    stringChars key ++ ':' :: value.chars ++ ',' :: charsOfMembers members

end

/-- The shortest text of a value. -/
def text (j : Json) : String :=
  String.ofList j.chars

end Json

end SwaggerClient
