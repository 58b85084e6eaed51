import SwaggerClient.Document.Basic
import SwaggerClient.Schema.Decode

/-!
# Decoding documents

A path item is read in two steps: its own parameters are decoded at once, and its
other entries are taken whole.  Behind the path item the entries whose keys are
verbs are decoded as operations, and all other entries are dropped.
-/

namespace SwaggerClient

/-- The location that a word names. -/
def parseLocation (word : String) : Except Reason Location :=
  match Location.ofWord? word with
  | some location => .ok location
  | none => .error (.unknownVariant word (Location.all.map Location.word))

/-- A parameter whose location may still be missing. -/
structure ParameterDraft where
  name : String := ""
  location : Option Location := none
  description : Option String := none
  required : Bool := false
  schema : Option SchemaNode := none

/-- The record of a parameter. -/
def parameterRecord : Record ParameterDraft where
  name := "Parameter"
  fields := ["name", "in", "description", "required", "schema"]
  required := ["in"]
  set source name t draft :=
    match name with
    | "name" => return { draft with name := ← decodeString t }
    | "in" => return { draft with location := ← (decodeWord parseLocation source t).map some }
    | "description" => return { draft with description := ← decodeOption decodeString t }
    | "required" => return { draft with required := ← decodeBool t }
    | "schema" =>
      return { draft with schema := ← decodeOption (SchemaNode.decode source) t }
    | _ => return draft

/-- Decodes a parameter.  The record has seen to it that the location is given. -/
def Parameter.decode (source : Source) (t : Tree) : Except Fault Parameter := do
  let draft ← parameterRecord.decode source {} t
  match draft.location with
  | some location =>
    return ⟨draft.name, location, draft.description, draft.required, draft.schema⟩
  | none => throw ⟨.missingField "in", none⟩

/-- The record of a response. -/
def responseRecord : Record Response where
  name := "Response"
  fields := ["description", "schema"]
  set source name t draft :=
    match name with
    | "description" => return { draft with description := ← decodeOption decodeString t }
    | "schema" =>
      return { draft with schema := ← decodeOption (SchemaNode.decode source) t }
    | _ => return draft

/-- Decodes a response. -/
def Response.decode (source : Source) (t : Tree) : Except Fault Response :=
  responseRecord.decode source {} t

/-- The record of an operation. -/
def operationRecord : Record Operation where
  name := "Operation"
  fields := ["tags", "summary", "description", "parameters", "responses"]
  set source name t draft :=
    match name with
    | "tags" =>
      return { draft with tags := ← decodeList (fun _ => decodeString) source t }
    | "summary" => return { draft with summary := ← decodeOption decodeString t }
    | "description" => return { draft with description := ← decodeOption decodeString t }
    | "parameters" =>
      return { draft with parameters := ← decodeList Parameter.decode source t }
    | "responses" =>
      return { draft with responses := ← decodeDictionary Response.decode source t }
    | _ => return draft

/-- Decodes an operation. -/
def Operation.decode (source : Source) (t : Tree) : Except Fault Operation :=
  operationRecord.decode source {} t

/-! ## Path items -/

/-- A path item before its operations are decoded. -/
structure PathItemDraft where
  /-- The parameters that all operations share, if they are given. -/
  parameters : Option (List Parameter) := none
  /-- The other entries in the order of the text. -/
  entries : List (String × Json) := []

/-- Reads the members of a path item. -/
def PathItemDraft.ofMembers (source : Source) :
    Members → PathItemDraft → Except Fault PathItemDraft
  | .closed _, draft => .ok draft
  | .broken fault _, _ => .error fault
  | .member key _ keySettled value settled rest, draft => do
    let name ← key
    if name = "parameters" then
      if draft.parameters.isSome then .error (.placed (.duplicateField name) keySettled)
      else
        let parameters ← settling settled (decodeList Parameter.decode source value)
        ofMembers source rest { draft with parameters := some parameters }
    else
      let json ← value.toJson source
      ofMembers source rest { draft with entries := draft.entries ++ [(name, json)] }

/-- The operation of an entry, if its key is a verb. -/
def entryOperation? (shared : List Parameter) (key : String) (json : Json) :
    Except Fault (Option (HttpMethod × Operation)) :=
  match HttpMethod.ofName? key with
  | none => .ok none
  | some method =>
    match Operation.decode .value json.toTree with
    | .ok operation => .ok (some (method, operation.inherit shared))
    | .error fault => .error ⟨.inOperation key fault.reason, none⟩

/-- The operations of a path item.  Of entries for the same verb the last one
counts, in the place of the first. -/
def PathItemDraft.operations (draft : PathItemDraft) : Except Fault PathItem := do
  let shared := draft.parameters.getD []
  let operations ← (Dictionary.ofList draft.entries).filterMapM fun (key, json) =>
    entryOperation? shared key json
  return Dictionary.ofList operations

/-- Decodes a path item. -/
def PathItem.decode (source : Source) : Tree → Except Fault PathItem
  | .object start members => do
    let draft ← PathItemDraft.ofMembers (← source.enter start) members {}
    draft.operations
  | t => .error (mismatch "struct RawPathItem" t)

/-! ## Documents -/

/-- The record of a document. -/
def documentRecord : Record Document where
  name := "Document"
  fields := ["swagger", "openapi", "basePath", "paths", "definitions"]
  set source name t draft :=
    match name with
    | "swagger" => return { draft with swagger := ← decodeOption decodeString t }
    | "openapi" => return { draft with openapi := ← decodeOption decodeString t }
    | "basePath" => return { draft with basePath := ← decodeOption decodeString t }
    | "paths" => return { draft with paths := ← decodeDictionary PathItem.decode source t }
    | "definitions" => return { draft with definitions := ← decodeDefinitions source t }
    | _ => return draft

/-- Decodes a document. -/
def Document.decode (source : Source) (t : Tree) : Except Fault Document :=
  documentRecord.decode source {} t

end SwaggerClient
