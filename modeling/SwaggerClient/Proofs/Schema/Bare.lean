import SwaggerClient.Proofs.Schema.Expansion

/-!
# Bare references

A reference in a type is bare when only unions and intersections stand around it.  A node
has bare references in the same way, through compositions only.  The bare references in the
type of a node are those behind its bare references.
-/

namespace SwaggerClient

namespace TypeExpr

variable {ρ σ : Type}

mutual

/-- The references in a type that stand in no member, index, value or item. -/
def bareReferences : TypeExpr ρ → List ρ
  | .union items => bareReferencesOfAll items
  | .intersection items => bareReferencesOfAll items
  | .reference target => [target]
  | _ => []

/-- The bare references in a list of types. -/
def bareReferencesOfAll : List (TypeExpr ρ) → List ρ
  | [] => []
  | item :: items => item.bareReferences ++ bareReferencesOfAll items

end

@[simp] theorem bareReferencesOfAll_eq (items : List (TypeExpr ρ)) :
    bareReferencesOfAll items = items.flatMap bareReferences := by
  induction items with
  | nil => rfl
  | cons item items ih => simp [bareReferencesOfAll, ih]

@[simp] theorem bareReferences_ofMembers (members : List (Member (TypeExpr ρ)))
    (index : Option (TypeExpr ρ)) : (ofMembers members index).bareReferences = [] := by
  rw [ofMembers]
  split <;> rfl

/-- The bare references of a type with its references replaced. -/
theorem bareReferences_mapReferences (f : ρ → σ) (t : TypeExpr ρ) :
    (t.mapReferences f).bareReferences = t.bareReferences.map f := by
  induction t with
  | union items ih | intersection items ih =>
    have h : items.flatMap (fun t => (t.mapReferences f).bareReferences) =
        items.flatMap fun t => t.bareReferences.map f := List.flatMap_congr fun t ht => ih t ht
    simpa [bareReferences, mapReferences, List.flatMap_map, List.map_flatMap] using h
  | object => simp [bareReferences]
  | primitive | array | literals | reference | map => rfl

theorem bareReferences_subset (t : TypeExpr ρ) : t.bareReferences ⊆ t.references := by
  induction t with
  | union items ih | intersection items ih =>
    intro target h
    simp only [bareReferences, references, bareReferencesOfAll_eq, referencesOfAll_eq,
      List.mem_flatMap] at h ⊢
    obtain ⟨t, ht, htarget⟩ := h
    exact ⟨t, ht, ih t ht htarget⟩
  | reference => exact List.Subset.refl _
  | primitive | object | array | literals | map => exact List.nil_subset _

end TypeExpr

/-! ## Nodes -/

mutual

/-- The names that a node refers to, itself or in its composition. -/
def SchemaNode.bareNames : SchemaNode → List String
  | ⟨_, some pointer, _, _, _, _, _, _, _, _⟩ => [definitionName pointer]
  | ⟨_, none, node :: nodes, _, _, _, _, _, _, _⟩ => node.bareNames ++ bareNamesOfAll nodes
  | ⟨_, none, [], nodes, _, _, _, _, _, _⟩ => bareNamesOfAll nodes

/-- The bare names of nodes. -/
def bareNamesOfAll : List SchemaNode → List String
  | [] => []
  | node :: nodes => node.bareNames ++ bareNamesOfAll nodes

end

namespace SchemaNode

@[simp] theorem bareNamesOfAll_eq (nodes : List SchemaNode) :
    bareNamesOfAll nodes = nodes.flatMap bareNames := by
  induction nodes with
  | nil => rfl
  | cons node nodes ih => simp [bareNamesOfAll, ih]

/-- The bare names of a node by its form. -/
theorem bareNames_eq (node : SchemaNode) :
    node.bareNames =
      match node.form with
      | .reference name => [name]
      | .allOf nodes => nodes.flatMap bareNames
      | .anyOf nodes => nodes.flatMap bareNames
      | .values _ => []
      | .kinds _ => [] := by
  obtain ⟨type, ref, allOf, anyOf, values, properties, items, required, additional,
    description⟩ := node
  cases ref with
  | some pointer => simp [form, bareNames]
  | none =>
    cases allOf with
    | cons n ns => simp [form, bareNames]
    | nil =>
      cases anyOf with
      | cons n ns => simp [form, bareNames]
      | nil => cases values <;> simp [form, bareNames]

variable (follow : String → TypeExpr Target)

theorem bareReferences_expandKind (node : SchemaNode) (kind : Kind) :
    (node.expandKind follow kind).bareReferences = [] := by
  rw [expandKind]
  cases kind with
  | object => simp [Kind.type]
  | unrecognized | missing => cases node.additionalSchema <;> rfl
  | array | string | number | boolean | void => rfl

/-- The bare references in the type of a node are those in the types of its bare names. -/
theorem bareReferences_expand (node : SchemaNode) :
    (node.expand follow).bareReferences =
      node.bareNames.flatMap fun name => (follow name).bareReferences := by
  induction node using SchemaNode.induct with
  | step node ih =>
    have hparts : ∀ nodes ⊆ node.parts,
        nodes.flatMap (fun part => (part.expand follow).bareReferences) =
          (nodes.flatMap bareNames).flatMap fun name => (follow name).bareReferences := by
      intro nodes hnodes
      rw [List.flatMap_assoc]
      exact List.flatMap_congr fun part hpart => ih part (hnodes hpart)
    rw [expand_eq, bareNames_eq]
    cases hform : node.form with
    | reference name => simp
    | allOf nodes =>
      have hsub : nodes ⊆ node.parts := fun part hpart =>
        mem_parts_of_allOf (allOf_of_form hform ▸ hpart)
      simpa [TypeExpr.bareReferences, List.flatMap_map] using hparts nodes hsub
    | anyOf nodes =>
      have hsub : nodes ⊆ node.parts := fun part hpart =>
        mem_parts_of_anyOf (anyOf_of_form hform ▸ hpart)
      simpa [TypeExpr.bareReferences, List.flatMap_map] using hparts nodes hsub
    | values => rfl
    | kinds kinds =>
      rcases kinds with _ | ⟨kind, _ | ⟨kind', kinds⟩⟩
      · rfl
      · exact bareReferences_expandKind follow node kind
      · simp [TypeExpr.bareReferences, List.flatMap_map, bareReferences_expandKind]

end SchemaNode

/-! ## Names -/

/-- The bare references in the type of a name: the name itself, or those behind the bare
names of its definition. -/
theorem Definitions.bareReferences_follow (definitions : Definitions) (bound : Nat)
    (enclosing : List String) (name : String) :
    match definitions.get? name with
    | none => (definitions.follow bound enclosing name).bareReferences = [.undefined name]
    | some node =>
      (definitions.follow bound enclosing name).bareReferences = [.enclosing name] ∨
      ∃ rest, bound = rest + 1 ∧ (definitions.follow bound enclosing name).bareReferences =
        node.bareNames.flatMap fun ref =>
          (definitions.follow rest (name :: enclosing) ref).bareReferences := by
  cases hnode : definitions.get? name with
  | none =>
    simp only [follow_of_none _ _ hnode]
    rfl
  | some node =>
    by_cases hm : name ∈ enclosing
    · left
      rw [follow_of_mem _ _ hnode hm]
      rfl
    · cases bound with
      | zero =>
        left
        rw [follow]
        simp [hnode, TypeExpr.bareReferences]
      | succ rest =>
        refine .inr ⟨rest, rfl, ?_⟩
        rw [follow_succ _ _ hnode hm, SchemaNode.bareReferences_expand]

end SwaggerClient
