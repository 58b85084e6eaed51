import SwaggerClient.Api.Basic
import SwaggerClient.Client.Options
import SwaggerClient.Code.Declaration
import SwaggerClient.Code.ObjectLiteral
import SwaggerClient.TypeExpr.Render

/-!
# The code of an endpoint

An endpoint becomes type aliases for its path parameters, query parameters, body
and response, and an asynchronous function that sends the request.
-/

namespace SwaggerClient

/-- The text of a piece inside a template literal: a named placeholder becomes a
substitution of its binding, and all else stands as it is. -/
def UrlTemplate.Piece.substituted : Piece → List Char
  | .char c => [c]
  | .placeholder [] => ['{', '}']
  | .placeholder name =>
    ['$', '{'] ++ (bindingName (String.ofList name)).toList ++ ['}']

/-- A URL template as the text of a template literal over the bindings of its
placeholders. -/
def interpolateUrl (url : String) : String :=
  String.ofList ((UrlTemplate.pieces url).flatMap UrlTemplate.Piece.substituted)

/-- The entry of a path parameter in a destructuring pattern: just its name when
it can be bound under it. -/
def pathField (name : String) : String :=
  let binding := bindingName name
  if binding = name then binding else s!"{propertyKey name}:{binding}"

/-- A type declared under a name. -/
structure TypeDeclaration where
  name : String
  type : TypeExpr String
  /-- The documentation, written in front. -/
  doc : Option String := none
  deriving Repr

/-- The alias that declares a type. -/
def TypeDeclaration.alias (t : TypeDeclaration) : Code.TypeAlias :=
  ⟨t.name, t.type.render, t.doc⟩

namespace Endpoint

variable (e : Endpoint)

/-- The type of the path parameters: all of them are strings that must be given. -/
def pathShape : TypeExpr String :=
  .ofMembers (e.pathParams.map fun name => ⟨name, false, none, .primitive .string⟩) none

/-- The type of the query parameters. -/
def queryShape : TypeExpr String :=
  .ofMembers
    (e.query.map fun q =>
      ⟨q.name, !q.required, memberDoc (q.description.getD ""), .primitive .string⟩)
    none

/-- The declaration of the type of the path parameters, if there are any. -/
def pathDeclaration : List TypeDeclaration :=
  if e.pathParams.isEmpty then []
  else [⟨e.names.pathType, e.pathShape, some s!"{e.label} path parameters"⟩]

/-- The declaration of the type of the query parameters, if there are any. -/
def queryDeclaration : List TypeDeclaration :=
  if e.query.isEmpty then []
  else [⟨e.names.queryType, e.queryShape, some s!"{e.label} query parameters"⟩]

/-- The declaration of the type of the request body, if there is one. -/
def bodyDeclaration : List TypeDeclaration :=
  match e.body with
  | none => []
  | some body => [⟨e.names.bodyType, body, some s!"{e.label} request body"⟩]

/-- The declaration of the type of the response. -/
def responseDeclaration : TypeDeclaration :=
  ⟨e.names.responseType, e.response.getD .unknown, some s!"{e.label} response"⟩

/-- The declarations of the types that belong to an endpoint. -/
def declarations : List TypeDeclaration :=
  e.pathDeclaration ++ e.queryDeclaration ++ e.bodyDeclaration ++ [e.responseDeclaration]

/-- The parameters of the client function. -/
def params : List Code.Param :=
  (if e.pathParams.isEmpty then []
   else [Code.Param.destructured (e.pathParams.map pathField) e.names.pathType])
    ++ (if e.query.isEmpty then [] else [⟨"query", e.names.queryType⟩])
    ++ (if e.body.isNone then [] else [⟨"data", e.names.bodyType⟩])

/-- The configuration of the request. -/
def request : Code.ObjectLiteral :=
  ⟨[⟨"url", .template (interpolateUrl e.url)⟩, ⟨"method", .string e.method⟩]
    ++ (if e.query.isEmpty then [] else [⟨"params", .raw "query"⟩])
    ++ (if e.body.isNone then [] else [⟨"data", .shorthand⟩])⟩

/-- What a function gives after a request that went well. -/
def successValue : ErrorStyle → String
  | .sentinel => "res"
  | .result => Code.ObjectLiteral.inline ⟨[⟨"ok", .raw "true"⟩, ⟨"data", .raw "res"⟩]⟩

/-- What a function gives after a request that failed. -/
def failureValue : ErrorStyle → String
  | .sentinel => "null"
  | .result => Code.ObjectLiteral.inline ⟨[⟨"ok", .raw "false"⟩, ⟨"error", .shorthand⟩]⟩

/-- The client function. -/
def function (style : ErrorStyle) : Code.Function where
  name := e.names.function
  doc := some s!"{e.label}\nModule: {e.tag}"
  isAsync := true
  params := e.params
  body :=
    [.block "try \x7b"
       [.block (s!"const res = await axios<{e.names.responseType}>(" ++ "\x7b")
          e.request.propertyFragments (some "\x7d)"),
        .line s!"return {successValue style}"]
       (some "\x7d catch (error) \x7b"),
     .indent [.line s!"return {failureValue style}"],
     .line "\x7d"]

end Endpoint

end SwaggerClient
