import SwaggerClient.Api.Names
import SwaggerClient.TypeExpr.Basic

/-!
# Client interfaces

What is generated for a document: its endpoints, with the types of what they
take and give, and the types that have to be declared under a name.
-/

namespace SwaggerClient

/-- A query parameter; its value is always a string. -/
structure QueryParam where
  name : String
  required : Bool
  description : Option String
  deriving DecidableEq, Repr

/-- An operation as the client calls it. -/
structure Endpoint where
  /-- The verb in small letters. -/
  method : String
  /-- The URL template as the document writes it. -/
  url : String
  /-- The group whose file holds the endpoint. -/
  group : String
  tag : String
  /-- What the endpoint is called in documentation. -/
  label : String
  names : EndpointNames
  /-- The names of the placeholders in the URL template, in its order. -/
  pathParams : List String
  query : List QueryParam
  /-- The type of the request body, if there is one. -/
  body : Option (TypeExpr String)
  /-- The type of the response, if the document gives one. -/
  response : Option (TypeExpr String)
  /-- The declared types that the types of the endpoint refer to. -/
  requires : List String
  deriving Repr

/-- A type declared under a name. -/
structure NamedType where
  name : String
  type : TypeExpr String
  deriving Repr

/-- The endpoints of a client in document order and its named types. -/
structure Api where
  endpoints : List Endpoint
  named : List NamedType
  deriving Repr

/-- The named type of a name among some: the first one, should there be several. -/
def findNamed (named : List NamedType) (name : String) : Option NamedType :=
  named.find? (·.name == name)

/-- The named types among some names that are not found yet, each once. -/
def newlyFound (named : List NamedType) (found : List String) :
    List String → List NamedType
  | [] => []
  | name :: names =>
    match findNamed named name with
    | none => newlyFound named found names
    | some type =>
      if found.contains name then newlyFound named found names
      else type :: newlyFound named (name :: found) names

namespace Api

variable (api : Api)

/-- The named type of a name. -/
def namedType? (name : String) : Option NamedType :=
  findNamed api.named name

/-- The groups in the order in which the endpoints first meet them. -/
def groups : List String :=
  (api.endpoints.map (·.group)).eraseDups

/-- The endpoints of a group in document order. -/
def endpointsIn (group : String) : List Endpoint :=
  api.endpoints.filter (·.group == group)

end Api

end SwaggerClient
