import SwaggerClient.HttpMethod
import SwaggerClient.Schema.Basic

/-!
# Documents

A document describes the operations that can be called, path by path, and the
schemas that they refer to.
-/

namespace SwaggerClient

/-- Where a parameter is carried. -/
inductive Location where
  | query
  | path
  | body
  | header
  | formData
  deriving DecidableEq, Repr

namespace Location

/-- All locations. -/
def all : List Location := [query, path, body, header, formData]

/-- The word for a location. -/
def word : Location → String
  | query => "query"
  | path => "path"
  | body => "body"
  | header => "header"
  | formData => "formData"

/-- The location of a word. -/
def ofWord? (word : String) : Option Location :=
  all.find? (·.word == word)

end Location

/-- A parameter of an operation. -/
structure Parameter where
  name : String
  location : Location
  description : Option String
  required : Bool
  schema : Option SchemaNode
  deriving Repr

/-- Whether a parameter takes the place of another: name and location agree. -/
def Parameter.overrides (p q : Parameter) : Bool :=
  p.name == q.name && p.location == q.location

/-- A response of an operation. -/
structure Response where
  description : Option String := none
  schema : Option SchemaNode := none
  deriving Repr

/-- What can be called with one verb on one path. -/
structure Operation where
  tags : List String := []
  summary : Option String := none
  description : Option String := none
  parameters : List Parameter := []
  /-- The responses by their status codes. -/
  responses : Dictionary String Response := []
  deriving Repr

namespace Operation

variable (o : Operation)

/-- The first tag, or `default` if there is none or it is empty. -/
def tag : String :=
  match o.tags with
  | tag :: _ => if tag.isEmpty then "default" else tag
  | [] => "default"

/-- What an operation at a URL is called: its description, else its summary, else
the URL. -/
def label (url : String) : String :=
  (([o.description, o.summary].filterMap id).find? fun text => !text.isEmpty).getD url

/-- Whether a status code is one of three bytes that says that a call went well. -/
def isSuccess (status : String) : Bool :=
  status.utf8ByteSize == 3 && status.startsWith "2"

/-- The response to a call that went well: the one of status 200, else the first
one of a successful status, else the default one. -/
def successResponse : Option Response :=
  (o.responses.get? "200").or
    (((o.responses.find? fun (status, _) => isSuccess status).map Prod.snd).or
      (o.responses.get? "default"))

/-- The schema of the response to a call that went well. -/
def successSchema : Option SchemaNode :=
  o.successResponse.bind (·.schema)

/-- The parameters at a location. -/
def parametersIn (location : Location) : List Parameter :=
  o.parameters.filter (·.location == location)

/-- An operation with the parameters of its path in front of its own, except those
that its own take the place of. -/
def inherit (shared : List Parameter) : Operation :=
  { o with
    parameters := (shared.filter fun p => !o.parameters.any (·.overrides p)) ++ o.parameters }

end Operation

/-- The operations on a path by their verbs. -/
abbrev PathItem := Dictionary HttpMethod Operation

/-- A document. -/
structure Document where
  /-- The version of the format. -/
  swagger : Option String := none
  /-- The version of another format, given by documents of that format. -/
  openapi : Option String := none
  basePath : Option String := none
  /-- The path items by their URL templates. -/
  paths : Dictionary String PathItem := []
  definitions : Definitions := []
  deriving Repr

/-- An operation with the URL template and the verb that call it. -/
structure Route where
  url : String
  method : HttpMethod
  operation : Operation
  deriving Repr

namespace Document

variable (d : Document)

/-- The operations of a document in its order. -/
def routes : List Route :=
  d.paths.flatMap fun (url, item) =>
    item.map fun (method, operation) => ⟨url, method, operation⟩

/-- The number of operations on all paths. -/
def operationCount : Nat :=
  d.paths.foldr (fun (_, item) count => item.length + count) 0

end Document

end SwaggerClient
