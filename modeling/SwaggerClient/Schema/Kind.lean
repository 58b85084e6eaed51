import SwaggerClient.Schema.Basic

/-!
# Kinds of schema nodes

What a node describes when it is no reference, no composition and no list of
values: its field `type` says it, and otherwise the fields that are set.
-/

namespace SwaggerClient

/-- What a node describes. -/
inductive Kind where
  | object
  | array
  | string
  | number
  | boolean
  /-- No value with a usable type. -/
  | void
  /-- A token that means nothing here. -/
  | unrecognized
  /-- Nothing says what the node describes. -/
  | missing
  deriving DecidableEq, Repr

/-- The kind that a token names. -/
def TypeToken.kind : TypeToken → Kind
  | object => .object
  | array => .array
  | string => .string
  | integer => .number
  | number => .number
  | boolean => .boolean
  | null => .void
  | undefined => .void
  | unrecognized => .unrecognized

/-- The kinds of a node with a field `type`, and perhaps properties and items.  A
list of tokens names one kind each; an empty list says nothing. -/
def kindsOf (type : Option TypeField) (hasProperties hasItems : Bool) : List Kind :=
  match type with
  | some (.single token) => [token.kind]
  | some (.multiple (token :: tokens)) => (token :: tokens).map TypeToken.kind
  | _ => if hasProperties then [.object] else if hasItems then [.array] else [.missing]

/-- The kinds of a node. -/
def SchemaNode.kinds (node : SchemaNode) : List Kind :=
  kindsOf node.type node.properties.isSome node.items.isSome

end SwaggerClient
