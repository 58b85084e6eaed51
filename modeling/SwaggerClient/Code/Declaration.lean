import SwaggerClient.Code.Fragment

/-!
# Declarations

The declarations of a generated module as data: imports, type aliases and
functions, each with the fragments that write it.
-/

namespace SwaggerClient.Code

/-- An import of a module, for its default export or only for its effect. -/
structure Import where
  /-- The module. -/
  source : String
  /-- The name that its default export gets. -/
  binding : Option String := none
  deriving Repr

/-- The fragments of an import. -/
def Import.fragments (i : Import) : List Fragment :=
  match i.binding with
  | some name => [.line s!"import {name} from '{i.source}'"]
  | none => [.line s!"import '{i.source}'"]

/-- An exported type alias. -/
structure TypeAlias where
  name : String
  /-- The text of the type. -/
  type : String
  /-- The documentation, written in front. -/
  doc : Option String := none
  deriving Repr

/-- The fragments of a documentation comment, if there is one. -/
def docFragments (doc : Option String) : List Fragment :=
  doc.toList.map .doc

/-- The fragments of a type alias. -/
def TypeAlias.fragments (a : TypeAlias) : List Fragment :=
  docFragments a.doc ++ [.line s!"export type {a.name} = {a.type};"]

/-- A parameter of a function. -/
structure Param where
  /-- The name or pattern that is bound. -/
  pattern : String
  /-- The text of its type. -/
  type : String
  deriving Repr

/-- A parameter that takes an object apart into fields. -/
def Param.destructured (fields : List String) (type : String) : Param :=
  ⟨"\x7b" ++ ",".intercalate fields ++ "\x7d", type⟩

/-- A parameter with its type. -/
def Param.text (p : Param) : String :=
  s!"{p.pattern}:{p.type}"

/-- An exported function. -/
structure Function where
  name : String
  /-- The documentation, written in front. -/
  doc : Option String := none
  /-- Whether it is asynchronous. -/
  isAsync : Bool := false
  params : List Param := []
  body : List Fragment := []
  deriving Repr

/-- The line that opens a function. -/
def Function.signature (f : Function) : String :=
  let mode := if f.isAsync then "async " else ""
  s!"export {mode}function {f.name}(" ++ ", ".intercalate (f.params.map Param.text) ++ ") \x7b"

/-- The fragments of a function. -/
def Function.fragments (f : Function) : List Fragment :=
  docFragments f.doc ++ [.block f.signature f.body (some "\x7d")]

end SwaggerClient.Code
