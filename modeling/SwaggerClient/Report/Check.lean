import SwaggerClient.Compilation
import SwaggerClient.Report.Output

/-!
# Checking a document
-/

namespace SwaggerClient

/-- The messages of one severity, each with its place on a second line. -/
def Compilation.messages (c : Compilation) (severity : Severity) : List String :=
  (c.withSeverity severity).map Diagnostic.located

/-- How much there is in a document. -/
structure CheckStats where
  endpoints : Nat
  groups : Nat
  definitions : Nat
  /-- The definitions that refer back to themselves. -/
  recursive : Nat
  deriving DecidableEq, Repr

/-- What a check finds. -/
structure CheckReport where
  /-- The path of the document. -/
  path : String
  errors : List String
  warnings : List String
  infos : List String
  /-- There are none after errors. -/
  stats : Option CheckStats
  deriving Repr

/-- Counts what is in a document. -/
def Document.stats (d : Document) : CheckStats :=
  let api := d.api
  { endpoints := api.endpoints.length
    groups := api.groups.length
    definitions := d.definitions.length
    recursive := api.named.length }

/-- Checks a document. -/
def Document.check (d : Document) (path : String) (strict : Bool) : CheckReport :=
  let c := Compilation.validate { document := d } defaultLints strict
  { path
    errors := c.messages .error
    warnings := c.messages .warning
    infos := c.messages .info
    stats := if c.errorCount = 0 then some d.stats else none }

namespace CheckReport

variable (r : CheckReport)

/-- Whether nothing speaks against a document. -/
def isValid : Bool :=
  r.errors.isEmpty

/-- The parts of counts. -/
def statsLines : Option CheckStats → List ReportLine
  | none => []
  | some stats =>
    [.newline, .keyValue "  Endpoints" (toString stats.endpoints),
      .keyValue "  Groups" (toString stats.groups),
      .keyValue "  Definitions" (toString stats.definitions)]
      ++ (if stats.recursive = 0 then []
          else [.keyValue "  Recursive definitions" (toString stats.recursive)])

/-- The parts of a report. -/
def lines : List ReportLine :=
  (r.errors.map fun text => .warning ("error: " ++ text))
    ++ (r.warnings.map fun text => .warning ("warning: " ++ text))
    ++ (r.infos.map fun text => .preformatted ("info: " ++ text))
    ++ (if r.warnings.isEmpty && r.errors.isEmpty then [] else [.newline])
    ++ (if r.isValid then .preformatted ("✓ " ++ r.path ++ " is valid") :: statsLines r.stats
        else [])

end CheckReport

end SwaggerClient
