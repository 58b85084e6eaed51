/-!
# Options of the generated client
-/

namespace SwaggerClient

/-- How a generated function reports a failed request. -/
inductive ErrorStyle where
  /-- It gives the response, or `null` after a failure. -/
  | sentinel
  /-- It gives an object that says whether the request went well. -/
  | result
  deriving DecidableEq, Repr

namespace ErrorStyle

/-- The word for a style. -/
def name : ErrorStyle → String
  | sentinel => "sentinel"
  | result => "result"

/-- The style of a word. -/
def ofName? : String → Option ErrorStyle
  | "sentinel" => some sentinel
  | "result" => some result
  | _ => none

/-- What is said of a word that is no style. -/
def unknownMessage (word : String) : String :=
  s!"unknown error style '{word}', expected 'sentinel' or 'result'"

end ErrorStyle

/-- The choices that shape generated modules. -/
structure ClientOptions where
  /-- Code above the declarations; without it the modules import `axios`. -/
  preamble : Option String := none
  errorStyle : ErrorStyle := .sentinel
  deriving DecidableEq, Repr

end SwaggerClient
