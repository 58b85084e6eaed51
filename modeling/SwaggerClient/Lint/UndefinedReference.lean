import SwaggerClient.Lint.Basic

/-!
# References to definitions that are not there

Every reference of a document is looked at, used or not, and every name without a
definition is reported where it first occurs.
-/

namespace SwaggerClient

mutual

/-- The names of the definitions that a node refers to, itself first and then part
by part. -/
def SchemaNode.refNames : SchemaNode → List String
  | ⟨_, ref, allOf, anyOf, _, properties, items, _, additional, _⟩ =>
    (ref.map definitionName).toList ++ refNamesOfAll allOf ++ refNamesOfAll anyOf
      ++ (match properties with
          | some properties => refNamesOfProperties properties
          | none => [])
      ++ (match items with
          | some item => item.refNames
          | none => [])
      ++ (match additional with
          | some (.schema value) => value.refNames
          | _ => [])

/-- The names that nodes refer to. -/
def refNamesOfAll : List SchemaNode → List String
  | [] => []
  | node :: nodes => node.refNames ++ refNamesOfAll nodes

/-- The names that properties refer to. -/
def refNamesOfProperties : List (String × SchemaNode) → List String
  | [] => []
  | (_, node) :: properties => node.refNames ++ refNamesOfProperties properties

end

/-- The schemas of an operation: those of its parameters, then of its responses. -/
def Operation.schemas (o : Operation) : List SchemaNode :=
  o.parameters.filterMap (·.schema) ++ o.responses.filterMap (·.2.schema)

/-- The references of a document with the places where they occur. -/
def Document.references (d : Document) : List (String × String) :=
  (d.definitions.flatMap fun (name, node) =>
      node.refNames.map fun ref => (ref, s!"definitions.{name}"))
    ++ d.routes.flatMap fun r =>
      (r.operation.schemas.flatMap SchemaNode.refNames).map fun ref => (ref, r.location)

/-- The first entry of each key, except for keys seen before. -/
def firstEntries (seen : List String) : List (String × String) → List (String × String)
  | [] => []
  | (key, value) :: entries =>
    if seen.contains key then firstEntries seen entries
    else (key, value) :: firstEntries (key :: seen) entries

/-- The references of a document that no definition has the name of, each once with
its first place. -/
def Document.undefinedReferences (d : Document) : List (String × String) :=
  firstEntries [] (d.references.filter fun (name, _) => (d.definitions.get? name).isNone)

/-- Reports references to definitions that are not there. -/
def undefinedReferenceLint : Lint where
  name := "unresolved-reference"
  description := "Detect $ref pointers to definitions that don't exist"
  check d :=
    d.undefinedReferences.map fun (name, location) =>
      lintWarning s!"reference to undefined definition '{name}'" location

end SwaggerClient
