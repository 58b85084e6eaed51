import SwaggerClient.HttpMethod
import SwaggerClient.UrlTemplate

/-!
# Names of an endpoint

The function and the types generated for an endpoint are all named after its
verb and the identifier made of its URL template.
-/

namespace SwaggerClient

/-- The names generated for one endpoint. -/
structure EndpointNames where
  /-- The identifier made of the URL template. -/
  identifier : String
  /-- The client function. -/
  function : String
  /-- The type of the path parameters. -/
  pathType : String
  /-- The type of the query parameters. -/
  queryType : String
  /-- The type of the request body. -/
  bodyType : String
  /-- The type of the response. -/
  responseType : String
  deriving DecidableEq, Repr

/-- The names of the endpoint with a verb at a URL template. -/
def EndpointNames.of (method : HttpMethod) (url : String) : EndpointNames :=
  let identifier := UrlTemplate.identifier url
  let typeName := Text.capitalize method.name ++ identifier
  { identifier
    function := method.name ++ identifier
    pathType := typeName ++ "Path"
    queryType := typeName ++ "Query"
    bodyType := typeName ++ "Body"
    responseType := typeName ++ "Res" }

end SwaggerClient
