import SwaggerClient.Json.Number
import SwaggerClient.Text.Escaped

/-!
# Faults of a JSON text

Why a text cannot be decoded: it breaks off, it breaks the grammar, or it is not
the data that was asked for.  A fault knows its place in the text unless it was
met in a value that had already been read.
-/

namespace SwaggerClient

/-- What stands where something else is expected. -/
inductive Found where
  | null
  | bool (value : Bool)
  | number (value : Number)
  | string (value : String)
  | sequence
  | map
  deriving Repr

/-- The words for what was found. -/
def Found.description : Found → String
  | .null => "null"
  | .bool b => "boolean `" ++ (if b then "true" else "false") ++ "`"
  | .number (.integer n) => "integer `" ++ toString n ++ "`"
  | .number n => "floating point `" ++ n.text ++ "`"
  | .string s => "string " ++ Text.shown s
  | .sequence => "sequence"
  | .map => "map"

/-- The reason of a fault. -/
inductive Reason where
  /-- The text ends where a value should stand. -/
  | endInValue
  | endInString
  | endInList
  | endInObject
  | expectedValue
  | expectedIdent
  | expectedColon
  | expectedListEnd
  | expectedObjectEnd
  | keyNotString
  | trailingComma
  | trailingCharacters
  | invalidNumber
  | numberOutOfRange
  | controlCharacter
  | invalidEscape
  | unexpectedEscapeEnd
  | loneSurrogate
  /-- Too many brackets are open at once. -/
  | tooDeep
  | invalidType (found : Found) (expected : String)
  | unknownVariant (word : String) (variants : List String)
  | duplicateField (name : String)
  | missingField (name : String)
  | invalidLength (length : Nat) (expected : String)
  | notSingleKey
  /-- A value has none of the forms of a type. -/
  | noVariant (type : String)
  /-- A fault in the operation under a key. -/
  | inOperation (key : String) (reason : Reason)
  deriving Repr

namespace Reason

/-- The kinds of faults. -/
inductive Category where
  /-- The text breaks the grammar. -/
  | grammar
  /-- The text breaks off. -/
  | ending
  /-- The text holds other data than was asked for. -/
  | data
  deriving DecidableEq, Repr

/-- The kind of a reason. -/
def category : Reason → Category
  | endInValue | endInString | endInList | endInObject => .ending
  | expectedValue | expectedIdent | expectedColon | expectedListEnd | expectedObjectEnd
  | keyNotString | trailingComma | trailingCharacters | invalidNumber | numberOutOfRange
  | controlCharacter | invalidEscape | unexpectedEscapeEnd | loneSurrogate | tooDeep => .grammar
  | invalidType .. | unknownVariant .. | duplicateField _ | missingField _ | invalidLength ..
  | notSingleKey | noVariant _ | inOperation .. => .data

/-- A name between backticks. -/
def ticked (name : String) : String :=
  "`" ++ name ++ "`"

/-- The words for a reason. -/
def message : Reason → String
  | endInValue => "EOF while parsing a value"
  | endInString => "EOF while parsing a string"
  | endInList => "EOF while parsing a list"
  | endInObject => "EOF while parsing an object"
  | expectedValue => "expected value"
  | expectedIdent => "expected ident"
  | expectedColon => "expected `:`"
  | expectedListEnd => "expected `,` or `]`"
  | expectedObjectEnd => "expected `,` or `\x7d`"
  | keyNotString => "key must be a string"
  | trailingComma => "trailing comma"
  | trailingCharacters => "trailing characters"
  | invalidNumber => "invalid number"
  | numberOutOfRange => "number out of range"
  | controlCharacter => "control character (\\u0000-\\u001F) found while parsing a string"
  | invalidEscape => "invalid escape"
  | unexpectedEscapeEnd => "unexpected end of hex escape"
  | loneSurrogate => "lone leading surrogate in hex escape"
  | tooDeep => "recursion limit exceeded"
  | invalidType found expected =>
    "invalid type: " ++ found.description ++ ", expected " ++ expected
  | unknownVariant word variants =>
    "unknown variant " ++ ticked word ++ ", expected one of "
      ++ ", ".intercalate (variants.map ticked)
  | duplicateField name => "duplicate field " ++ ticked name
  | missingField name => "missing field " ++ ticked name
  | invalidLength length expected =>
    "invalid length " ++ toString length ++ ", expected " ++ expected
  | notSingleKey => "invalid value: map, expected map with a single key"
  | noVariant type => "data did not match any variant of untagged enum " ++ type
  | inOperation key reason => "in '" ++ key ++ "' operation: " ++ reason.message

end Reason

/-- A reason with its place: how many bytes of the text lie before it. -/
structure Fault where
  reason : Reason
  offset : Option Nat := none
  deriving Repr

namespace Fault

/-- A fault at a place. -/
def placed (reason : Reason) (offset : Nat) : Fault :=
  ⟨reason, some offset⟩

/-- A fault without a place gets one. -/
def settle (fault : Fault) (offset : Nat) : Fault :=
  ⟨fault.reason, some (fault.offset.getD offset)⟩

end Fault

/-- A result whose fault gets a place if it has none. -/
def settling {α : Type} (offset : Nat) (result : Except Fault α) : Except Fault α :=
  result.mapError (·.settle offset)

end SwaggerClient
