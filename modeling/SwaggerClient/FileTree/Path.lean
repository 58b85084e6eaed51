import SwaggerClient.Text.Split

/-!
# Paths

Paths are text with slashes between their components.
-/

namespace SwaggerClient.Path

/-- Whether a path starts at the root. -/
def isAbsolute (path : String) : Bool :=
  path.toList.head? == some '/'

/-- A path below another one; an absolute path stands for itself. -/
def join (base path : String) : String :=
  if isAbsolute path || base.isEmpty then path
  else if base.toList.getLast? == some '/' then base ++ path
  else base ++ "/" ++ path

/-- The components of a path. -/
def components (path : String) : List String :=
  Text.split '/' path

/-- Components in reverse without empty ones and dots at the end; the first
component stays. -/
def trimEnd : List String → List String
  | [] => []
  | [first] => [first]
  | last :: rest => if last == "" || last == "." then trimEnd rest else last :: rest

/-- The path of the directory that holds a path. -/
def parent (path : String) : String :=
  match trimEnd ((trimEnd (components path).reverse).drop 1) with
  | [] => ""
  | [""] => "/"
  | reversed => "/".intercalate reversed.reverse

end SwaggerClient.Path
