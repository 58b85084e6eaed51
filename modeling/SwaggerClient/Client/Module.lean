import SwaggerClient.Client.Endpoint
import SwaggerClient.Code.Module

/-!
# The modules of a client

Each group of endpoints has a module of its own.  A named type is declared in
every module that needs it, in front of the first endpoint that does.
-/

namespace SwaggerClient

/-- The declaration of a named type. -/
def NamedType.declaration (n : NamedType) : TypeDeclaration :=
  ⟨n.name, n.type, none⟩

/-- A part of a module: an endpoint behind the named types that are declared for it. -/
structure ModulePart where
  named : List NamedType
  endpoint : Endpoint

namespace ModulePart

variable (part : ModulePart)

/-- The types declared in a part: named types, then those of the endpoint. -/
def declarations : List TypeDeclaration :=
  part.named.map NamedType.declaration ++ part.endpoint.declarations

/-- The code of a part: aliases for its types, then the function of the endpoint. -/
def fragments (style : ErrorStyle) : List Code.Fragment :=
  part.declarations.flatMap (fun t => t.alias.fragments)
    ++ (part.endpoint.function style).fragments

end ModulePart

namespace Api

variable (api : Api)

/-- Endpoints as parts of a module.  Each has the named types that it needs in front of
it, except those whose names are declared already. -/
def parts (declared : List String) : List Endpoint → List ModulePart
  | [] => []
  | e :: es =>
    let new := newlyFound api.named declared e.requires
    ⟨new, e⟩ :: parts (declared ++ new.map (·.name)) es

/-- The parts of the module of a group. -/
def moduleParts (group : String) : List ModulePart :=
  api.parts [] (api.endpointsIn group)

/-- The source of a group, part by part. -/
def groupSource (style : ErrorStyle) (group : String) : List String :=
  (api.moduleParts group).map fun part => Code.render (part.fragments style)

/-- The source of every group. -/
def groupSources (api : Api) (style : ErrorStyle) : List (String × List String) :=
  api.groups.map fun group => (group, api.groupSource style group)

end Api

/-- The name of the language that clients are written in. -/
def clientLanguage : String := "typescript"

/-- The extension of the files of that language. -/
def fileExtension : String := "ts"

/-- The name of the file that holds a group. -/
def moduleFileName (group : String) : String :=
  group ++ "Api." ++ fileExtension

/-- The preamble of a module: the given code, or the import of `axios`. -/
def modulePreamble : Option String → List Code.Fragment
  | some code => Code.verbatim code
  | none => Code.Import.fragments ⟨"axios", some "axios"⟩

/-- The text of a module with the source of its endpoints. -/
def moduleText (preamble : Option String) (sources : List String) : String :=
  Code.Module.render ⟨[modulePreamble preamble], sources.map Code.verbatim⟩

/-- The files of a client: name and text, in the order of the groups. -/
def Api.files (api : Api) (options : ClientOptions) : List (String × String) :=
  (api.groupSources options.errorStyle).map fun (group, sources) =>
    (moduleFileName group, moduleText options.preamble sources)

end SwaggerClient
