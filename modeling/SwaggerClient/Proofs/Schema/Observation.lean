import SwaggerClient.Api.OfDocument
import SwaggerClient.Proofs.Schema.Expansion

/-!
# Observation

Schemas and types are trees with references, and the trees may be endless.  What can be
seen of them are the heads at the ends of finite paths.  References are followed on the
way, and where they lead nowhere nothing is seen.
-/

namespace SwaggerClient

/-- A step from a schema or type to a part of it. -/
inductive Selector where
  /-- The property of a name. -/
  | property (name : String)
  /-- The value under any other key. -/
  | additional
  /-- The item of an array. -/
  | item
  /-- One of the alternatives of a composition or of a list of types. -/
  | alternative (index : Nat)

/-- What is seen of a schema or type before any step. -/
inductive Head where
  | primitive (kind : Primitive)
  | array
  | map
  /-- Names, optional flags and documentation of the members, in order, and whether
  there are values under other keys. -/
  | object (members : List (String × Bool × Option String)) (indexed : Bool)
  | union (arity : Nat)
  | intersection (arity : Nat)
  | literals (values : List Literal)

/-- A kind of trees with references. -/
structure View (α : Type) where
  /-- What a reference stands for. -/
  resolve : α → Option α
  /-- The head of what is no reference. -/
  head : α → Option Head
  /-- The part that a selector leads to. -/
  part : α → Selector → Option α

namespace TypeExpr

variable {ρ : Type}

/-- The head of a type that is no reference. -/
def head : TypeExpr ρ → Option Head
  | .primitive kind => some (.primitive kind)
  | .object members index =>
    some (.object (members.map fun m => (m.name, m.optional, m.doc)) index.isSome)
  | .array _ => some .array
  | .union items => some (.union items.length)
  | .intersection items => some (.intersection items.length)
  | .literals values => some (.literals values)
  | .reference _ => none
  | .map _ => some .map

/-- The part of a type that a selector leads to. -/
def part : TypeExpr ρ → Selector → Option (TypeExpr ρ)
  | .object members _, .property name => (members.find? fun m => name == m.name).map (·.type)
  | .object _ index, .additional => index
  | .map value, .additional => some value
  | .array item, .item => some item
  | .union items, .alternative i => items[i]?
  | .intersection items, .alternative i => items[i]?
  | _, _ => none

/-- The declared type that a reference stands for. -/
def resolve (api : Api) : TypeExpr String → Option (TypeExpr String)
  | .reference name => (api.namedType? name).map (·.type)
  | _ => none

end TypeExpr

namespace SchemaNode

/-- The head of a kind of a node. -/
def kindHead (node : SchemaNode) : Kind → Head
  | .object =>
    if (node.properties.getD []).isEmpty && node.additionalSchema.isNone then .primitive .unknown
    else .object
      ((node.properties.getD []).map fun p => (p.1, !node.isRequired p.1, memberDoc p.2.describe))
      node.additionalSchema.isSome
  | .array => .array
  | .string => .primitive .string
  | .number => .primitive .number
  | .boolean => .primitive .boolean
  | .void => .primitive .unknown
  | .unrecognized | .missing =>
    if node.additionalSchema.isSome then .map else .primitive .unknown

/-- The head of a node that is no reference. -/
def head (node : SchemaNode) : Option Head :=
  match node.form with
  | .reference _ => none
  | .allOf nodes => some (.intersection nodes.length)
  | .anyOf nodes => some (.union nodes.length)
  | .values values => some (.literals (values.map Json.literal))
  | .kinds [kind] => some (node.kindHead kind)
  | .kinds kinds => some (.union kinds.length)

/-- The part of a kind of a node that a selector leads to.  An array without a schema
for its items is one of anything. -/
def kindPart (node : SchemaNode) : Kind → Selector → Option SchemaNode
  | .object, .property name => (node.properties.getD []).lookup name
  | .object, .additional => node.additionalSchema
  | .array, .item => some (node.items.getD {})
  | .unrecognized, .additional => node.additionalSchema
  | .missing, .additional => node.additionalSchema
  | _, _ => none

/-- The nodes that a list of types stands for: the same node with each type alone. -/
def typeAlternatives (node : SchemaNode) : List SchemaNode :=
  match node.type with
  | some (.multiple tokens) => tokens.map fun token => { node with type := some (.single token) }
  | _ => []

/-- The part of a node that a selector leads to. -/
def part (node : SchemaNode) (selector : Selector) : Option SchemaNode :=
  match node.form, selector with
  | .allOf nodes, .alternative i => nodes[i]?
  | .anyOf nodes, .alternative i => nodes[i]?
  | .kinds [kind], selector => node.kindPart kind selector
  | .kinds _, .alternative i => node.typeAlternatives[i]?
  | _, _ => none

end SchemaNode

/-- Schemas with definitions behind references. -/
def schemaView (definitions : Definitions) : View SchemaNode where
  resolve node := node.refName.bind definitions.get?
  head := SchemaNode.head
  part := SchemaNode.part

namespace SchemaNode

variable {node : SchemaNode}

end SchemaNode

/-! ## Replaced references -/

namespace TypeExpr

variable {ρ σ : Type}

theorem part_mapReferences (f : ρ → σ) (t : TypeExpr ρ) (selector : Selector) :
    (t.mapReferences f).part selector = (t.part selector).map (mapReferences f) := by
  cases t with
  | object members index =>
    cases selector <;> simp [part, mapMember, List.find?_map, Function.comp_def]
  | _ => cases selector <;> simp [mapReferences, part]

/-- The references of a part are references of the type. -/
theorem references_part {t u : TypeExpr ρ} {selector : Selector} (h : t.part selector = some u) :
    u.references ⊆ t.references := by
  intro target ht
  cases t with
  | object members index =>
    rw [references_object, List.mem_append]
    cases selector with
    | property name =>
      obtain ⟨m, hm, rfl⟩ := Option.map_eq_some_iff.1 h
      exact .inl (List.mem_flatMap.2 ⟨m, List.mem_of_find?_eq_some hm, ht⟩)
    | additional =>
      obtain rfl : index = some u := h
      exact .inr (by simpa using ht)
    | item | alternative => simp [part] at h
  | array item =>
    cases selector with
    | item =>
      obtain rfl : item = u := by simpa [part] using h
      exact ht
    | property | additional | alternative => simp [part] at h
  | map value =>
    cases selector with
    | additional =>
      obtain rfl : value = u := by simpa [part] using h
      exact ht
    | property | item | alternative => simp [part] at h
  | union items | intersection items =>
    cases selector with
    | alternative i =>
      rw [references, referencesOfAll_eq]
      exact List.mem_flatMap.2 ⟨u, List.mem_of_getElem? h, ht⟩
    | property | additional | item => simp [part] at h
  | primitive | literals | reference => cases selector <;> simp [part] at h

end TypeExpr

/-! ## Expanded schemas -/

namespace SchemaNode

variable (follow : String → TypeExpr Target)

/-- The expansion of a schema that says nothing. -/
@[simp] theorem expand_empty : ({} : SchemaNode).expand follow = .unknown := rfl

/-- Properties are found by name as their members are. -/
theorem find?_expandProperty (node : SchemaNode) (properties : List (String × SchemaNode))
    (name : String) :
    ((properties.map (node.expandProperty follow)).find? fun m => name == m.name).map (·.type) =
      (properties.lookup name).map (expand follow) := by
  induction properties with
  | nil => rfl
  | cons p properties ih =>
    obtain ⟨key, value⟩ := p
    by_cases hp : name = key
    · simp [expandProperty, hp]
    · have hp' : (name == key) = false := by simpa using hp
      simpa [expandProperty, List.lookup_cons, hp, hp'] using ih

/-- The parts of an object type; those without members and index have none. -/
theorem part_ofMembers (members : List (Member (TypeExpr Target)))
    (index : Option (TypeExpr Target)) (selector : Selector) :
    (TypeExpr.ofMembers members index).part selector =
      (TypeExpr.object members index).part selector := by
  unfold TypeExpr.ofMembers
  split
  next h =>
    obtain ⟨rfl, rfl⟩ : members = [] ∧ index = none := by simpa using h
    cases selector <;> rfl
  next => rfl

/-- The parts of the expansion of a kind are the expansions of its parts. -/
theorem part_expandKind (node : SchemaNode) (kind : Kind) (selector : Selector) :
    (node.expandKind follow kind).part selector =
      (node.kindPart kind selector).map (expand follow) := by
  cases kind with
  | object =>
    rw [expandKind, Kind.type, part_ofMembers]
    cases selector with
    | property name => exact find?_expandProperty follow node _ name
    | additional => rfl
    | item | alternative => rfl
  | array =>
    cases selector <;> cases hi : node.items <;>
      simp [expandKind, Kind.type, kindPart, TypeExpr.part, hi]
  | string | number | boolean | void => cases selector <;> rfl
  | unrecognized | missing =>
    cases hv : node.additionalSchema <;> cases selector <;>
      simp [expandKind, Kind.type, kindPart, TypeExpr.part, TypeExpr.unknown, hv]

/-- A node of several kinds has a list of types. -/
theorem kinds_eq_map (node : SchemaNode) (h : ∀ kind, node.kinds ≠ [kind]) :
    ∃ tokens, node.type = some (.multiple tokens) ∧ node.kinds = tokens.map TypeToken.kind := by
  unfold kinds kindsOf at h ⊢
  split at h
  next token htype => exact absurd rfl (h token.kind)
  next token tokens htype => exact ⟨_, htype, rfl⟩
  next => split_ifs at h <;> exact absurd rfl (h _)

/-- A node of kinds, with one type alone, expands to the kind of that type. -/
theorem expand_typeAlternative {node : SchemaNode} {kinds : List Kind}
    (h : node.form = .kinds kinds) (token : TypeToken) :
    expand follow { node with type := some (.single token) } =
      node.expandKind follow token.kind := by
  obtain ⟨href, hall, hany, hvalues, -⟩ := by simpa [h] using node.form_spec
  have hform : ({ node with type := some (.single token) } : SchemaNode).form =
      .kinds [token.kind] := by
    simp only [refName, Option.map_eq_none_iff] at href
    simp [form, href, hall, hany, hvalues, SchemaNode.kinds, kindsOf]
  rw [expand_eq, hform]
  rfl

/-- The parts of the expansion of what is no reference are the expansions of its
parts. -/
theorem part_expand {node : SchemaNode} (h : node.refName = none) (selector : Selector) :
    (node.expand follow).part selector = (node.part selector).map (expand follow) := by
  rw [expand_eq]
  unfold part
  cases hform : node.form with
  | reference name => simp [refName_of_form hform] at h
  | allOf nodes => cases selector <;> simp [TypeExpr.part]
  | anyOf nodes => cases selector <;> simp [TypeExpr.part]
  | values values => cases selector <;> rfl
  | kinds kinds =>
    have hkinds : node.kinds = kinds := by
      have := node.form_spec
      rw [hform] at this
      exact this.2.2.2.2
    by_cases hone : ∃ kind, kinds = [kind]
    · obtain ⟨kind, rfl⟩ := hone
      exact part_expandKind follow node kind selector
    · push Not at hone
      obtain ⟨tokens, htype, hmap⟩ := kinds_eq_map node (by rwa [hkinds])
      have halternatives : node.typeAlternatives.map (expand follow) =
          kinds.map (node.expandKind follow) := by
        rw [← hkinds, hmap, typeAlternatives, htype, List.map_map, List.map_map]
        exact List.map_congr_left fun token _ => expand_typeAlternative follow hform token
      rcases kinds with _ | ⟨kind, _ | ⟨kind', kinds⟩⟩
      · cases selector <;> simp [TypeExpr.part, ← List.getElem?_map, halternatives]
      · exact absurd rfl (hone kind)
      · cases selector <;> simp [TypeExpr.part, ← List.getElem?_map, halternatives]

end SchemaNode

end SwaggerClient
