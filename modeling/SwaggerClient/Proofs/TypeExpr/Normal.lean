import SwaggerClient.Proofs.Json.Number
import SwaggerClient.Proofs.TypeExpr.Basic
import SwaggerClient.TypeExpr.Render

/-!
# Normal forms of type expressions

Some differences between type expressions cannot be seen in their texts.  The normal
form of a type expression has none of them left: no documentation, an object in place of
a map, and no union or intersection of one.
-/

namespace SwaggerClient

/-- Whether the number in a literal, if it is one, is spelled as JSON has it. -/
def Literal.Spelled : Literal → Prop
  | .number digits => isNumberSpelling digits.toList
  | .text _ => True

namespace TypeExpr

variable {ρ σ : Type}

/-! ## Normal forms -/

/-- The union of types; of one type it is that type. -/
def unionOf : List (TypeExpr ρ) → TypeExpr ρ
  | [item] => item
  | items => .union items

/-- The intersection of types; of one type it is that type. -/
def intersectionOf : List (TypeExpr ρ) → TypeExpr ρ
  | [item] => item
  | items => .intersection items

mutual

/-- The normal form of a type. -/
def norm : TypeExpr ρ → TypeExpr ρ
  | .primitive kind => .primitive kind
  | .object members index =>
    .ofMembers (normMembers members)
      (match index with
       | none => none
       | some value => some value.norm)
  | .array item => .array item.norm
  | .union items => unionOf (normAll items)
  | .intersection items => intersectionOf (normAll items)
  | .literals values => unionOf (values.map fun value => .literals [value])
  | .reference target => .reference target
  | .map value => .object [] (some value.norm)

/-- The normal forms of types. -/
def normAll : List (TypeExpr ρ) → List (TypeExpr ρ)
  | [] => []
  | item :: items => item.norm :: normAll items

/-- Members without documentation and with normal forms as their types. -/
def normMembers : List (Member (TypeExpr ρ)) → List (Member (TypeExpr ρ))
  | [] => []
  | ⟨name, optional, _, type⟩ :: members => ⟨name, optional, none, type.norm⟩ :: normMembers members

end

@[simp] theorem normAll_eq (items : List (TypeExpr ρ)) : normAll items = items.map norm := by
  induction items with
  | nil => rfl
  | cons item items ih => simp [normAll, ih]

/-- A member without documentation and with a normal form as its type. -/
def normMember (m : Member (TypeExpr ρ)) : Member (TypeExpr ρ) :=
  ⟨m.name, m.optional, none, m.type.norm⟩

@[simp] theorem normMembers_eq (members : List (Member (TypeExpr ρ))) :
    normMembers members = members.map normMember := by
  induction members with
  | nil => rfl
  | cons m members ih => simp [normMembers, normMember, ih]

@[simp] theorem norm_object (members : List (Member (TypeExpr ρ))) (index : Option (TypeExpr ρ)) :
    (object members index).norm = .ofMembers (members.map normMember) (index.map norm) := by
  cases index <;> simp [norm]

theorem norm_object_of_ne {members : List (Member (TypeExpr ρ))} {index : Option (TypeExpr ρ)}
    (h : members ≠ [] ∨ index ≠ none) :
    (object members index).norm = .object (members.map normMember) (index.map norm) := by
  have hsome : (members.isEmpty && index.isNone) = false := by
    cases members <;> cases index <;> simp at h ⊢
  simp [ofMembers, hsome]

/-! ## Types that can be read back -/

/-- Every union, intersection and list of literals in a type has something in it, and
the numbers among the literals are spelled as JSON has them. -/
inductive WellFormed : TypeExpr ρ → Prop
  | primitive (kind : Primitive) : WellFormed (.primitive kind)
  | object {members : List (Member (TypeExpr ρ))} {index : Option (TypeExpr ρ)}
      (hm : ∀ m ∈ members, WellFormed m.type) (hi : ∀ value ∈ index, WellFormed value) :
      WellFormed (.object members index)
  | array {item : TypeExpr ρ} (hi : WellFormed item) : WellFormed (.array item)
  | union {items : List (TypeExpr ρ)} (hne : items ≠ []) (hi : ∀ item ∈ items, WellFormed item) :
      WellFormed (.union items)
  | intersection {items : List (TypeExpr ρ)} (hne : items ≠ [])
      (hi : ∀ item ∈ items, WellFormed item) : WellFormed (.intersection items)
  | literals {values : List Literal} (hne : values ≠ []) (hv : ∀ value ∈ values, value.Spelled) :
      WellFormed (.literals values)
  | reference (target : ρ) : WellFormed (.reference target)
  | map {value : TypeExpr ρ} (hv : WellFormed value) : WellFormed (.map value)

theorem WellFormed.unknown : WellFormed (unknown : TypeExpr ρ) :=
  .primitive .unknown

theorem WellFormed.ofMembers {members : List (Member (TypeExpr ρ))} {index : Option (TypeExpr ρ)}
    (hm : ∀ m ∈ members, WellFormed m.type) (hi : ∀ value ∈ index, WellFormed value) :
    WellFormed (ofMembers members index) := by
  unfold TypeExpr.ofMembers
  split
  · exact .unknown
  · exact .object hm hi

theorem WellFormed.mapReferences {t : TypeExpr ρ} (h : t.WellFormed) (f : ρ → σ) :
    (t.mapReferences f).WellFormed := by
  induction h with
  | primitive kind => exact .primitive kind
  | object _ _ ihm ihi =>
    rw [mapReferences_object]
    refine .object (fun m hm => ?_) fun value hv => ?_
    · obtain ⟨old, hold, rfl⟩ := List.mem_map.1 hm
      exact ihm old hold
    · obtain ⟨old, hold, rfl⟩ := Option.map_eq_some_iff.1 hv
      exact ihi old hold
  | array _ ih => exact .array ih
  | union hne _ ih =>
    rw [TypeExpr.mapReferences, mapAll_eq]
    refine .union (by simpa using hne) fun item hi => ?_
    obtain ⟨old, hold, rfl⟩ := List.mem_map.1 hi
    exact ih old hold
  | intersection hne _ ih =>
    rw [TypeExpr.mapReferences, mapAll_eq]
    refine .intersection (by simpa using hne) fun item hi => ?_
    obtain ⟨old, hold, rfl⟩ := List.mem_map.1 hi
    exact ih old hold
  | literals hne hv => exact .literals hne hv
  | reference target => exact .reference (f target)
  | map _ ih => exact .map ih

/-- Whether a name in a type is read as a reference: it is an identifier, and no primitive
type has it. -/
def IsReferenceName (name : String) : Prop :=
  isIdentifier name ∧ ∀ kind : Primitive, kind.name ≠ name

/-- What the text of a type needs to say which type it is. -/
structure Readable (t : TypeExpr String) : Prop where
  wellFormed : t.WellFormed
  references : ∀ name ∈ t.references, IsReferenceName name

end TypeExpr

end SwaggerClient
