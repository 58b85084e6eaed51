/-!
# Type expressions

The types of the generated code as trees.  What a reference points at is a
parameter: while a schema is read it is a definition of the document, and in the
finished client it is the name of a declared type.
-/

namespace SwaggerClient

/-- The types without parts. -/
inductive Primitive where
  | string
  | number
  | boolean
  /-- No usable static type. -/
  | unknown
  deriving DecidableEq, Repr

/-- A member of a union of literals. -/
inductive Literal where
  /-- A number in the spelling of its source. -/
  | number (digits : String)
  /-- Any other value, written in quotes. -/
  | text (value : String)
  deriving DecidableEq, Repr

/-- A named member of an object type. -/
structure Member (τ : Type) where
  name : String
  optional : Bool := false
  doc : Option String := none
  type : τ
  deriving Repr

/-- The documentation of a member; an empty text is none. -/
def memberDoc (text : String) : Option String :=
  if text.isEmpty then none else some text

/-- A type expression with references of type `ρ`. -/
inductive TypeExpr (ρ : Type) where
  | primitive (kind : Primitive)
  /-- Named members, and the type of the values under any other key. -/
  | object (members : List (Member (TypeExpr ρ))) (index : Option (TypeExpr ρ))
  | array (item : TypeExpr ρ)
  | union (items : List (TypeExpr ρ))
  | intersection (items : List (TypeExpr ρ))
  | literals (values : List Literal)
  | reference (target : ρ)
  /-- Values of one type under any key. -/
  | map (value : TypeExpr ρ)
  deriving Repr

namespace TypeExpr

variable {ρ σ : Type}

/-- The type of which nothing is known. -/
def unknown : TypeExpr ρ :=
  .primitive .unknown

instance : Inhabited (TypeExpr ρ) := ⟨unknown⟩

/-- Whether nothing is known of a type. -/
def isUnknown : TypeExpr ρ → Bool
  | .primitive .unknown => true
  | _ => false

/-- An object type; without members and index nothing is known of it. -/
def ofMembers (members : List (Member (TypeExpr ρ))) (index : Option (TypeExpr ρ)) : TypeExpr ρ :=
  if members.isEmpty && index.isNone then unknown else .object members index

mutual

/-- The references in a type, from left to right. -/
def references : TypeExpr ρ → List ρ
  | .primitive _ => []
  | .object members index =>
    referencesOfMembers members
      ++ (match index with
          | none => []
          | some value => value.references)
  | .array item => item.references
  | .union items => referencesOfAll items
  | .intersection items => referencesOfAll items
  | .literals _ => []
  | .reference target => [target]
  | .map value => value.references

/-- The references in a list of types. -/
def referencesOfAll : List (TypeExpr ρ) → List ρ
  | [] => []
  | item :: items => item.references ++ referencesOfAll items

/-- The references in the types of members. -/
def referencesOfMembers : List (Member (TypeExpr ρ)) → List ρ
  | [] => []
  | ⟨_, _, _, type⟩ :: members => type.references ++ referencesOfMembers members

end

mutual

/-- A type with every reference replaced. -/
def mapReferences (f : ρ → σ) : TypeExpr ρ → TypeExpr σ
  | .primitive kind => .primitive kind
  | .object members index =>
    .object (mapMembers f members)
      (match index with
       | none => none
       | some value => some (value.mapReferences f))
  | .array item => .array (item.mapReferences f)
  | .union items => .union (mapAll f items)
  | .intersection items => .intersection (mapAll f items)
  | .literals values => .literals values
  | .reference target => .reference (f target)
  | .map value => .map (value.mapReferences f)

/-- Types with every reference replaced. -/
def mapAll (f : ρ → σ) : List (TypeExpr ρ) → List (TypeExpr σ)
  | [] => []
  | item :: items => item.mapReferences f :: mapAll f items

/-- Members with every reference in their types replaced. -/
def mapMembers (f : ρ → σ) : List (Member (TypeExpr ρ)) → List (Member (TypeExpr σ))
  | [] => []
  | ⟨name, optional, doc, type⟩ :: members =>
    ⟨name, optional, doc, type.mapReferences f⟩ :: mapMembers f members

end

end TypeExpr

end SwaggerClient
