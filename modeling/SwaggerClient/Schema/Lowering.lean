import SwaggerClient.Api.Basic
import SwaggerClient.Name.Identifier
import SwaggerClient.Schema.Kind

/-!
# Lowering of schemas

Schemas become types, with every reference to a definition replaced by what the
definition describes.  Two kinds of references stay: to a definition that is not
there, and to a definition that is being lowered around the reference.  The latter
is declared under a type name when it is first met, and keeps that name.
-/

namespace SwaggerClient

/-- The definitions declared so far, in the order in which they were met, each
with its type name. -/
abbrev Declarations := List (String × String)

/-- The type names to try for a definition: a base, then the base with the numbers
from two on behind it. -/
def candidateName (base : String) : Nat → String
  | 0 => base
  | n + 1 => base ++ toString (n + 2)

/-- The first candidate that is not taken.  One of more candidates than there are
taken names is free. -/
def freeName (taken : List String) (base : String) : String :=
  (((List.range (taken.length + 1)).map (candidateName base)).find?
    fun name => !taken.contains name).getD base

namespace Declarations

variable (declared : Declarations)

/-- Declares a definition, unless it is declared already. -/
def declare (definition : String) : Declarations :=
  if (declared.lookup definition).isSome then declared
  else declared ++ [(definition, freeName (declared.map Prod.snd) (typeIdentifier definition))]

/-- The type name of a definition that is declared. -/
def typeName (definition : String) : String :=
  (declared.lookup definition).getD definition

end Declarations

/-- A listed value as a literal: numbers and strings as they are, all else as
text. -/
def Json.literal : Json → Literal
  | .number n => .number n.text
  | .string s => .text s
  | j => .text j.text

/-- What is known in the course of lowering schemas. -/
structure Lowering where
  /-- The definitions that are being lowered, the innermost first. -/
  inProgress : List String := []
  /-- The definitions that have been met inside themselves. -/
  declared : Declarations := []
  deriving DecidableEq, Repr

/-- A state to lower schemas in.  It holds a `Lowering` and may hold more. -/
class LoweringState (σ : Type) where
  lowering : σ → Lowering
  replace : Lowering → σ → σ
  lowering_replace : ∀ l s, lowering (replace l s) = l

attribute [simp] LoweringState.lowering_replace

instance : LoweringState Lowering where
  lowering l := l
  replace l _ := l
  lowering_replace _ _ := rfl

/-- A computation that lowers schemas.  It gives nothing when it comes to an end of
its bounds: on definitions inside each other, and on declarations. -/
abbrev LoweringM (σ : Type) := StateT σ Option

namespace LoweringM

variable {σ : Type} [LoweringState σ]

/-- What is known so far. -/
def known : LoweringM σ Lowering := do
  return LoweringState.lowering (← get)

/-- Begins with a definition. -/
def enter (definition : String) : LoweringM σ Unit := do
  let l ← known
  modify (LoweringState.replace { l with inProgress := definition :: l.inProgress })

/-- Is done with the innermost definition. -/
def leave : LoweringM σ Unit := do
  let l ← known
  modify (LoweringState.replace { l with inProgress := l.inProgress.tail })

/-- Declares a definition and gives its type name. -/
def declare (definition : String) : LoweringM σ String := do
  let l ← known
  let declared := l.declared.declare definition
  modify (LoweringState.replace { l with declared })
  return declared.typeName definition

end LoweringM

variable {σ : Type} [LoweringState σ]

/-- Lowers a kind, given how to lower the parts of its node. -/
def Kind.lower (members : LoweringM σ (List (Member (TypeExpr String))))
    (item : LoweringM σ (TypeExpr String)) (value : LoweringM σ (Option (TypeExpr String))) :
    Kind → LoweringM σ (TypeExpr String)
  | .object => do
    let members ← members
    let value ← value
    return .ofMembers members value
  | .array => do
    let item ← item
    return .array item
  | .string => return .primitive .string
  | .number => return .primitive .number
  | .boolean => return .primitive .boolean
  | .void => return .unknown
  | .unrecognized | .missing => do
    let value ← value
    return (value.map .map).getD .unknown

mutual

/-- Lowers a node, given how to lower the name that a reference gives.  A reference
goes before a composition, a composition before a list of values, and a list of
values before the kinds of the node. -/
def SchemaNode.lower (follow : String → LoweringM σ (TypeExpr String)) :
    SchemaNode → LoweringM σ (TypeExpr String)
  | ⟨_, some pointer, _, _, _, _, _, _, _, _⟩ => follow (definitionName pointer)
  | ⟨_, none, node :: nodes, _, _, _, _, _, _, _⟩ => do
    let first ← node.lower follow
    let rest ← lowerAll follow nodes
    return .intersection (first :: rest)
  | ⟨_, none, [], node :: nodes, _, _, _, _, _, _⟩ => do
    let first ← node.lower follow
    let rest ← lowerAll follow nodes
    return .union (first :: rest)
  | ⟨_, none, [], [], value :: values, _, _, _, _, _⟩ =>
    return .literals ((value :: values).map Json.literal)
  | ⟨type, none, [], [], [], properties, items, required, additional, _⟩ =>
    let members :=
      match properties with
      | some properties => lowerProperties follow required properties
      | none => pure []
    let item :=
      match items with
      | some item => item.lower follow
      | none => pure .unknown
    let value :=
      match additional with
      | some (.schema value) => do
        let type ← value.lower follow
        return some type
      | _ => pure none
    match kindsOf type properties.isSome items.isSome with
    | [kind] => kind.lower members item value
    | kinds => return .union (← kinds.mapM (Kind.lower members item value))

/-- Lowers nodes one after the other. -/
def lowerAll (follow : String → LoweringM σ (TypeExpr String)) :
    List SchemaNode → LoweringM σ (List (TypeExpr String))
  | [] => return []
  | node :: nodes => do
    let first ← node.lower follow
    let rest ← lowerAll follow nodes
    return first :: rest

/-- Lowers properties, some of which are required, to members. -/
def lowerProperties (follow : String → LoweringM σ (TypeExpr String)) (required : List String) :
    List (String × SchemaNode) → LoweringM σ (List (Member (TypeExpr String)))
  | [] => return []
  | (name, node) :: properties => do
    let type ← node.lower follow
    let rest ← lowerProperties follow required properties
    return ⟨name, !required.contains name, memberDoc node.describe, type⟩ :: rest

end

namespace Definitions

variable (definitions : Definitions)

/-- Lowers the definition of a name.  The bound says how many more definitions may
be entered. -/
def lowerReference : Nat → String → LoweringM σ (TypeExpr String)
  | bound, name =>
    match definitions.get? name with
    | none => return .reference name
    | some node => do
      let l ← LoweringM.known
      if l.inProgress.contains name then
        let typeName ← LoweringM.declare name
        return .reference typeName
      else
        match bound with
        | 0 => failure
        | bound + 1 => do
          LoweringM.enter name
          let type ← node.lower (lowerReference bound)
          LoweringM.leave
          return type

/-- Lowers a node.  No definition is entered inside itself, so the number of
definitions bounds how many are entered inside each other. -/
def lowerNode (node : SchemaNode) : LoweringM σ (TypeExpr String) :=
  node.lower (definitions.lowerReference definitions.length)

/-- Lowers a node that may be absent; nothing is known of the type of one that
is. -/
def lowerOptional : Option SchemaNode → LoweringM σ (TypeExpr String)
  | some node => definitions.lowerNode node
  | none => return .unknown

/-- Lowers the declared definitions from a position on, in a number of steps.  A
definition may need declarations that were not there before; they are met further
on. -/
def lowerDeclaredFrom : Nat → Nat → LoweringM σ (List NamedType)
  | 0, _ => failure
  | steps + 1, position => do
    let l ← LoweringM.known
    match l.declared[position]? with
    | none => return []
    | some (definition, name) =>
      match definitions.get? definition with
      | none => lowerDeclaredFrom steps (position + 1)
      | some node =>
        LoweringM.enter definition
        let type ← definitions.lowerNode node
        LoweringM.leave
        let rest ← lowerDeclaredFrom steps (position + 1)
        return ⟨name, type⟩ :: rest

/-- Lowers every declared definition.  There are at most as many as definitions, and
one step more finds that none is left. -/
def lowerDeclared : LoweringM σ (List NamedType) :=
  definitions.lowerDeclaredFrom (definitions.length + 1) 0

/-- The type of a node that may be absent, and the declarations after it. -/
def lower (node : Option SchemaNode) (declared : Declarations) : TypeExpr String × Declarations :=
  match (definitions.lowerOptional node).run { declared : Lowering } with
  | some (type, l) => (type, l.declared)
  | none => (.unknown, declared)

/-- The types of all declarations, and the declarations after them. -/
def namedTypes (declared : Declarations) : List NamedType × Declarations :=
  match definitions.lowerDeclared.run { declared : Lowering } with
  | some (types, l) => (types, l.declared)
  | none => ([], declared)

end Definitions

end SwaggerClient
