import SwaggerClient.Proofs.Schema.Form

/-!
# The names that a lowering asks for

Of the references in a node only those in the fields that decide what it describes are
looked up.  Beside a reference nothing else is, beside a composition no properties are, and
properties, items and values are when the kinds of the node have them.  The names that the
definitions look up make a graph of the definitions.
-/

namespace SwaggerClient

/-- Whether what a kind describes has values of other properties. -/
def Kind.hasValues : Kind → Bool
  | .object | .unrecognized | .missing => true
  | .array | .string | .number | .boolean | .void => false

/-- Whether a name is looked up when a node is lowered. -/
inductive SchemaNode.Consults (name : String) : SchemaNode → Prop
  | reference {node : SchemaNode} (hform : node.form = .reference name) : Consults name node
  | allOf {node part : SchemaNode} {nodes : List SchemaNode} (hform : node.form = .allOf nodes)
      (hp : part ∈ nodes) (h : part.Consults name) : Consults name node
  | anyOf {node part : SchemaNode} {nodes : List SchemaNode} (hform : node.form = .anyOf nodes)
      (hp : part ∈ nodes) (h : part.Consults name) : Consults name node
  | property {node : SchemaNode} {kinds : List Kind} {property : String × SchemaNode}
      (hform : node.form = .kinds kinds) (hk : Kind.object ∈ kinds)
      (hp : property ∈ node.properties.getD []) (h : property.2.Consults name) :
      Consults name node
  | item {node item : SchemaNode} {kinds : List Kind} (hform : node.form = .kinds kinds)
      (hk : Kind.array ∈ kinds) (hi : node.items = some item) (h : item.Consults name) :
      Consults name node
  | value {node value : SchemaNode} {kinds : List Kind} {kind : Kind}
      (hform : node.form = .kinds kinds) (hk : kind ∈ kinds) (hkind : kind.hasValues)
      (hv : node.additionalSchema = some value) (h : value.Consults name) : Consults name node

namespace SchemaNode

variable {node : SchemaNode} {name : String}

/-- A name that is looked up is a name that the node refers to. -/
theorem Consults.mem_refNames (h : node.Consults name) : name ∈ node.refNames := by
  induction h with
  | reference hform =>
    rw [refNames_eq, refName_of_form hform]
    simp
  | allOf hform hp _ ih =>
    exact mem_refNames_of_part (mem_parts_of_allOf (allOf_of_form hform ▸ hp)) ih
  | anyOf hform hp _ ih =>
    exact mem_refNames_of_part (mem_parts_of_anyOf (anyOf_of_form hform ▸ hp)) ih
  | property _ _ hp _ ih => exact mem_refNames_of_part (mem_parts_of_properties hp) ih
  | item _ _ hi _ ih => exact mem_refNames_of_part (mem_parts_of_items hi) ih
  | value _ _ _ hv _ ih => exact mem_refNames_of_part (mem_parts_of_additional hv) ih

end SchemaNode

/-- Whether a name is looked up when the definition of another name is lowered.  A name without
a definition looks up nothing. -/
def Definitions.Consults (definitions : Definitions) (definition name : String) : Prop :=
  ∃ node, definitions.get? definition = some node ∧ node.Consults name

end SwaggerClient
