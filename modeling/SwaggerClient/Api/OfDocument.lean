import SwaggerClient.Document.Basic
import SwaggerClient.Schema.Lowering

/-!
# The interface of a document

Every operation becomes an endpoint.  The types of all endpoints share one list of
declarations, so a definition has one type name in the whole client.
-/

namespace SwaggerClient

/-- The query parameters of an operation; one without a name is left out. -/
def Operation.queryParams (o : Operation) : List QueryParam :=
  ((o.parametersIn .query).filter fun p => !p.name.isEmpty).map fun p =>
    ⟨p.name, p.required, p.description.filter fun text => !text.isEmpty⟩

/-- The schema of the request body: that of the first body parameter. -/
def Operation.bodySchema (o : Operation) : Option SchemaNode :=
  (o.parametersIn .body).head?.bind (·.schema)

/-- The endpoint of an operation with the types of its body and response, before it is
known which named types those need. -/
def Route.endpoint (route : Route) (body response : Option (TypeExpr String)) : Endpoint where
  method := route.method.name
  url := route.url
  group := UrlTemplate.group route.url
  tag := route.operation.tag
  label := route.operation.label route.url
  names := .of route.method route.url
  pathParams := UrlTemplate.placeholders route.url
  query := route.operation.queryParams
  body
  response
  requires := []

variable {σ : Type} [LoweringState σ]

/-- Lowers a schema that may not be given. -/
def Definitions.lowerGiven (definitions : Definitions) :
    Option SchemaNode → LoweringM σ (Option (TypeExpr String))
  | none => return none
  | some node => do
    let type ← definitions.lowerNode node
    return some type

/-- Lowers an operation to its endpoint. -/
def Route.lower (definitions : Definitions) (route : Route) : LoweringM σ Endpoint := do
  let body ← definitions.lowerGiven route.operation.bodySchema
  let response ← definitions.lowerGiven route.operation.successSchema
  return route.endpoint body response

/-- The names of the named types that types refer to, and that those refer to in
turn.  The last type that came up is looked at first.  Every named type comes up at
most once, so as many steps as there are types to begin with and named types are
enough. -/
def reachableNames (named : List NamedType) :
    Nat → List (TypeExpr String) → List String → List String
  | 0, _, found => found
  | _ + 1, [], found => found
  | steps + 1, type :: types, found =>
    let new := newlyFound named found type.references
    reachableNames named steps ((new.map (·.type)).reverse ++ types)
      (found ++ new.map (·.name))

/-- The named types that an endpoint needs, in the order in which they come up. -/
def Endpoint.requiredNames (e : Endpoint) (named : List NamedType) : List String :=
  reachableNames named (named.length + 2) (e.response.toList ++ e.body.toList) []

/-- Lowers the operations of a document in order, and then what has been declared. -/
def Document.lower (d : Document) : LoweringM σ Api := do
  let endpoints ← d.routes.mapM (Route.lower d.definitions)
  let named ← d.definitions.lowerDeclared
  return ⟨endpoints.map fun e => { e with requires := e.requiredNames named }, named⟩

/-- The interface of a document. -/
def Document.api (d : Document) : Api :=
  match d.lower.run ({} : Lowering) with
  | some (api, _) => api
  | none => ⟨[], []⟩

end SwaggerClient
