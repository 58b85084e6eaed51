import SwaggerClient.Proofs.Api.Lowered

/-!
# References without a declaration

A reference in the interface of a document is the name of a named type, or a name that no
definition has.  The lint for undefined references looks at all schemas of the document, so it
reports every name of the latter kind.
-/

namespace SwaggerClient

/-- The types in an interface: those of bodies and responses, and those of named types. -/
def Api.types (api : Api) : List (TypeExpr String) :=
  (api.endpoints.flatMap fun e => e.body.toList ++ e.response.toList) ++ api.named.map (·.type)

namespace Document

variable {d : Document} {type : TypeExpr String} {name : String}

end Document

end SwaggerClient
