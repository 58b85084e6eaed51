import SwaggerClient.Json.Basic
import SwaggerClient.Text.Split

/-!
# Schemas

A schema node describes a JSON value by whichever of its fields are set.
-/

namespace SwaggerClient

/-- A token of the field `type`. -/
inductive TypeToken where
  | object
  | array
  | string
  | integer
  | number
  | boolean
  | null
  | undefined
  /-- Any other token. -/
  | unrecognized
  deriving DecidableEq, Repr

namespace TypeToken

/-- The word of a token; an unrecognized one has no word of its own. -/
def word : TypeToken → String
  | object => "object"
  | array => "array"
  | string => "string"
  | integer => "integer"
  | number => "number"
  | boolean => "boolean"
  | null => "null"
  | undefined => "undefined"
  | unrecognized => "unrecognized"

/-- The token of a word. -/
def ofWord (word : String) : TypeToken :=
  ([object, array, string, integer, number, boolean, null, undefined].find?
    (·.word == word)).getD unrecognized

end TypeToken

/-- The field `type`: one token, or a list of them. -/
inductive TypeField where
  | single (token : TypeToken)
  | multiple (tokens : List TypeToken)
  deriving DecidableEq, Repr

/-- The field `additionalProperties`. -/
inductive Additional (ν : Type) where
  /-- Whether other properties are allowed. -/
  | allowed (value : Bool)
  /-- The schema of the values of other properties. -/
  | schema (node : ν)
  deriving Repr

/-- A node of a schema. -/
structure SchemaNode where
  type : Option TypeField := none
  /-- The pointer to the definition that the node stands for. -/
  ref : Option String := none
  allOf : List SchemaNode := []
  anyOf : List SchemaNode := []
  /-- The values that are allowed, when they are listed. -/
  enumeration : List Json := []
  properties : Option (List (String × SchemaNode)) := none
  items : Option SchemaNode := none
  /-- The properties that must be given. -/
  required : List String := []
  additional : Option (Additional SchemaNode) := none
  description : Option String := none
  deriving Inhabited, Repr

/-- The schemas that pointers refer to, by name. -/
abbrev Definitions := Dictionary String SchemaNode

/-- The name in a pointer to a definition; any other pointer is its own name. -/
def definitionName (pointer : String) : String :=
  (Text.dropLeading? "#/definitions/" pointer).getD pointer

namespace SchemaNode

/-- The name of the definition that a node refers to. -/
def refName (node : SchemaNode) : Option String :=
  node.ref.map definitionName

/-- Whether a property must be given. -/
def isRequired (node : SchemaNode) (name : String) : Bool :=
  node.required.contains name

/-- The schema of the values of other properties, if there is one. -/
def additionalSchema (node : SchemaNode) : Option SchemaNode :=
  match node.additional with
  | some (.schema value) => some value
  | _ => none

/-- The description of a node, empty if there is none. -/
def describe (node : SchemaNode) : String :=
  node.description.getD ""

end SchemaNode

end SwaggerClient
