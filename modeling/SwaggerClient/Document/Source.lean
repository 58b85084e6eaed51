import SwaggerClient.Document.Decode
import SwaggerClient.FileTree.Basic
import SwaggerClient.Json.Position
import SwaggerClient.Json.Reader

/-!
# Documents in files

Reading a document from its text, and what is said when that fails.
-/

namespace SwaggerClient

/-- The text of a document and the name of its file. -/
structure SourceText where
  text : String
  name : String
  deriving DecidableEq, Repr

/-- A part of a text, in bytes. -/
structure Span where
  offset : Nat
  length : Nat
  deriving DecidableEq, Repr

/-- Why there is no document. -/
inductive DocumentError where
  /-- The file cannot be read. -/
  | unreadable (path : String) (failure : ReadFailure)
  /-- The text cannot be decoded. -/
  | undecodable (reason : Reason) (place : LineColumn) (span : Option Span)
  /-- The document is not of a supported kind. -/
  | unsupported (message : String) (span : Option Span)
  deriving Repr

namespace DocumentError

/-- What is said of an error. -/
def message : DocumentError → String
  | unreadable path _ => "failed to read '" ++ path ++ "'"
  | undecodable .. => "failed to parse API document"
  | unsupported message _ => message

/-- The code of an error, by which it can be looked up. -/
def code? : DocumentError → Option String
  | unreadable .. => none
  | undecodable .. => some "tsgen::parse_error"
  | unsupported .. => some "tsgen::validation_error"

/-- What can be done about an error. -/
def help? : DocumentError → Option String
  | unreadable .. => some "pass the path of a Swagger 2.0 JSON document"
  | undecodable .. | unsupported .. => none

/-- The reason why a text cannot be decoded, with its place. -/
def reason? : DocumentError → Option String
  | undecodable reason place _ =>
    some s!"{reason.message} at line {place.line} column {place.column}"
  | unreadable .. | unsupported .. => none

end DocumentError

/-- How many bytes of a text lie before the first occurrence of another text. -/
def findBytes? (needle : List UInt8) : List UInt8 → Option Nat
  | [] => if needle.isEmpty then some 0 else none
  | byte :: bytes =>
    if needle.isPrefixOf (byte :: bytes) then some 0
    else (findBytes? needle bytes).map (· + 1)

namespace SourceText

variable (source : SourceText)

/-- The bytes of a text. -/
def bytes : List UInt8 :=
  source.text.toUTF8.toList

/-- The error of a fault.  Every fault of a text has a place. -/
def undecodable (fault : Fault) : DocumentError :=
  let place := LineColumn.ofOffset source.bytes (fault.offset.getD 0)
  .undecodable fault.reason place ((place.offset? source.bytes).map (⟨·, 1⟩))

/-- An error without a place. -/
def unsupported (message : String) : DocumentError :=
  .unsupported message none

/-- An error that points at the first occurrence of a text. -/
def unsupportedNear (message needle : String) : DocumentError :=
  let needle := needle.toUTF8.toList
  .unsupported message ((findBytes? needle source.bytes).map (⟨·, needle.length⟩))

end SourceText

/-- Reads the data in a whole text. -/
def decodeText {α : Type} (decode : Source → Tree → Except Fault α) (text : String) :
    Except Fault α := do
  let (tree, behind) := readTree text
  let a ← decode (.text 0) tree
  match behind with
  | some fault => throw fault
  | none => return a

namespace Document

/-- Refuses a document of another format, or of another version of this one. -/
def validate (d : Document) (source : SourceText) : Except DocumentError Unit :=
  match d.openapi, d.swagger with
  | some version, _ =>
    .error (source.unsupportedNear
      s!"OpenAPI {version} documents are not supported, expected Swagger 2.0" "\"openapi\"")
  | none, some version =>
    if version.startsWith "2" then .ok ()
    else
      .error (source.unsupportedNear
        s!"unsupported swagger version '{version}', expected 2.x" "\"swagger\"")
  | none, none => .ok ()

/-- Reads a document from its text. -/
def ofSource (source : SourceText) : Except DocumentError Document := do
  let d ← (decodeText Document.decode source.text).mapError source.undecodable
  d.validate source
  return d

/-- Reads a document from a file. -/
def ofFile (t : FileTree) (path : String) : Except DocumentError Document :=
  match t.read path with
  | .error failure => .error (.unreadable path failure)
  | .ok text => ofSource ⟨text, path⟩

end Document

end SwaggerClient
