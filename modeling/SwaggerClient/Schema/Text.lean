import SwaggerClient.Schema.Lowering
import SwaggerClient.TypeExpr.Render

/-!
# The text of a schema

The type of a single schema node as text, by itself or as an entry of an object
type.
-/

namespace SwaggerClient.Definitions

/-- The text of the type of a node, behind a key unless that is empty.  A key is
written as it is given, and a description goes above it. -/
def entryText (definitions : Definitions) (key : String) (node : Option SchemaNode)
    (description : String) : String :=
  let type := (definitions.lower node []).1
  if key.isEmpty then type.render
  else String.ofList (keyHead (memberDoc description) key ++ type.chars .member)

end SwaggerClient.Definitions
