/-!
# Diagnostics
-/

namespace SwaggerClient

/-- How bad a finding is. -/
inductive Severity where
  | error
  | warning
  | info
  deriving DecidableEq, Repr

/-- The word for a severity. -/
def Severity.word : Severity → String
  | error => "error"
  | warning => "warning"
  | info => "info"

/-- A finding about a document. -/
structure Diagnostic where
  severity : Severity
  /-- The phase that found it. -/
  phase : String
  message : String
  /-- Where in the document it was found, if anywhere. -/
  location : Option String := none
  deriving DecidableEq, Repr

namespace Diagnostic

variable (d : Diagnostic)

/-- A warning raised to an error; nothing else changes. -/
def promote : Diagnostic :=
  if d.severity = .warning then { d with severity := .error } else d

/-- A diagnostic on one line. -/
def display : String :=
  d.severity.word ++ ": " ++ d.message
    ++ (match d.location with
        | some location => " (at " ++ location ++ ")"
        | none => "")

/-- The message with its location on a second line. -/
def located : String :=
  match d.location with
  | some location => d.message ++ "\n  --> " ++ location
  | none => d.message

end Diagnostic

end SwaggerClient
