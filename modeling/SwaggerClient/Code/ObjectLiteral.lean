import SwaggerClient.Code.Fragment

/-!
# Object literals

An object literal as a list of properties.  It is written with one property on
each line, or inline with blanks between.
-/

namespace SwaggerClient.Code

/-- The value of a property. -/
inductive PropertyValue where
  /-- Text between single quotes. -/
  | string (text : String)
  /-- Text between backticks, with substitutions. -/
  | template (text : String)
  /-- An expression. -/
  | raw (code : String)
  /-- The variable named by the key. -/
  | shorthand
  deriving Repr

/-- A property of an object literal. -/
structure Property where
  key : String
  value : PropertyValue
  deriving Repr

/-- A property as it stands in an object literal. -/
def Property.text (p : Property) : String :=
  match p.value with
  | .string s => s!"{p.key}: '{s}'"
  | .template s => s!"{p.key}: `{s}`"
  | .raw s => s!"{p.key}: {s}"
  | .shorthand => p.key

/-- An object literal. -/
structure ObjectLiteral where
  properties : List Property := []
  deriving Repr

namespace ObjectLiteral

variable (o : ObjectLiteral)

/-- The lines of the properties, each followed by a comma. -/
def propertyFragments : List Fragment :=
  o.properties.map fun p => .line (p.text ++ ",")

/-- The fragments of an object literal, one property on a line. -/
def fragments : List Fragment :=
  if o.properties.isEmpty then [.raw "\x7b\x7d"]
  else [.block "\x7b" o.propertyFragments (some "\x7d")]

/-- An object literal on one line. -/
def inline : String :=
  if o.properties.isEmpty then "\x7b\x7d"
  else "\x7b " ++ ", ".intercalate (o.properties.map Property.text) ++ " \x7d"

end ObjectLiteral

end SwaggerClient.Code
