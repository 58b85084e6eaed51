import SwaggerClient.Json.Decode
import SwaggerClient.Schema.Basic

/-!
# Decoding schemas

A schema node is decoded from an object, or from an array of its fields.
-/

namespace SwaggerClient

/-- A token of the field `type`; every word is one. -/
def decodeToken (t : Tree) : Except Fault TypeToken :=
  decodeWord (fun word => .ok (.ofWord word)) .value t

/-- The field `type` in one of its forms. -/
def decodeTypeField : Source → Tree → Except Fault TypeField :=
  decodeForms "TypeField" fun t =>
    match decodeToken t with
    | .ok token => some (.single token)
    | .error _ => (decodeList (fun _ => decodeToken) .value t).toOption.map .multiple

/-- The required properties: a list of names; a truth value stands for no name. -/
def decodeRequired : Source → Tree → Except Fault (List String) :=
  decodeForms "RawRequired" fun t =>
    match decodeList (fun _ => decodeString) .value t with
    | .ok names => some names
    | .error _ => (decodeBool t).toOption.map fun _ => []

/-- The field `additionalProperties` in one of its forms. -/
def decodeAdditional (node : Source → Tree → Except Fault SchemaNode) :
    Source → Tree → Except Fault (Additional SchemaNode) :=
  decodeForms "AdditionalProperties" fun t =>
    match decodeBool t with
    | .ok value => some (.allowed value)
    | .error _ => (node .value t).toOption.map .schema

/-- The record of a schema node, given how the nodes inside it are decoded. -/
def schemaRecord (node : Source → Tree → Except Fault SchemaNode) : Record SchemaNode where
  name := "SchemaNode"
  fields := ["type", "$ref", "allOf", "anyOf", "enum", "properties", "items", "required",
    "additionalProperties", "description"]
  set source name t draft :=
    match name with
    | "type" => return { draft with type := ← decodeOption (decodeTypeField source) t }
    | "$ref" => return { draft with ref := ← decodeOption decodeString t }
    | "allOf" => return { draft with allOf := ← decodeList node source t }
    | "anyOf" => return { draft with anyOf := ← decodeList node source t }
    | "enum" =>
      return { draft with enumeration := ← decodeList (fun s t => t.toJson s) source t }
    | "properties" =>
      return { draft with properties := ← decodeOption (decodeDictionary node source) t }
    | "items" => return { draft with items := ← decodeOption (node source) t }
    | "required" => return { draft with required := ← decodeRequired source t }
    | "additionalProperties" =>
      return { draft with additional := ← decodeOption (decodeAdditional node source) t }
    | "description" => return { draft with description := ← decodeOption decodeString t }
    | _ => return draft

namespace SchemaNode

/-- Decodes a node whose brackets nest less deep than a bound. -/
def decodeWithin : Nat → Source → Tree → Except Fault SchemaNode
  | 0, _, t => .error (mismatch "struct SchemaNode" t)
  | levels + 1, source, t => (schemaRecord (decodeWithin levels)).decode source {} t

/-- Decodes a node. -/
def decode (source : Source) (t : Tree) : Except Fault SchemaNode :=
  decodeWithin (t.height + 1) source t

end SchemaNode

/-- Decodes definitions. -/
def decodeDefinitions (source : Source) (t : Tree) : Except Fault Definitions :=
  decodeDictionary SchemaNode.decode source t

end SwaggerClient
