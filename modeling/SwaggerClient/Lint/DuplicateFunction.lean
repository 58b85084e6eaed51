import SwaggerClient.Api.Names
import SwaggerClient.Lint.Basic

/-!
# Functions of the same name

Two operations of a group whose functions have the same name: the declarations of
the later one would take the place of those of the earlier one.
-/

namespace SwaggerClient

namespace Route

variable (r : Route)

/-- The group of an operation and the name of its function. -/
def functionKey : String × String :=
  (UrlTemplate.group r.url, (EndpointNames.of r.method r.url).function)

/-- An operation in a message. -/
def title : String :=
  s!"{r.method.name.toUpper} {r.url}"

/-- What is said of an operation whose function an earlier one has. -/
def duplicateWarning (first : Route) : Diagnostic :=
  let (group, function) := r.functionKey
  lintWarning
    s!"duplicate function '{function}' in group '{group}' ({r.title} conflicts with {first.title})"
    r.location

end Route

/-- The warnings for operations behind some others, of which each is the first of
its function. -/
def duplicateWarnings (firsts : List Route) : List Route → List Diagnostic
  | [] => []
  | r :: rs =>
    match firsts.find? (·.functionKey == r.functionKey) with
    | some first => r.duplicateWarning first :: duplicateWarnings firsts rs
    | none => duplicateWarnings (firsts ++ [r]) rs

/-- Reports operations whose function an earlier operation of the group has. -/
def duplicateFunctionLint : Lint where
  name := "duplicate-identifier"
  description := "Detect operations that generate the same function name within a group"
  check d := duplicateWarnings [] d.routes

end SwaggerClient
