import SwaggerClient.Lint.UndefinedReference
import SwaggerClient.Api.OfDocument
import SwaggerClient.Proofs.Dictionary
import SwaggerClient.Proofs.Schema.Form

/-!
# Which references are reported

Every schema of a document is looked at, in all its fields.  A name that no definition has is
reported once, at the first definition that refers to it, or else at the first operation.  The
references that are looked at are those of every schema that the interface of the document is
made of.
-/

namespace SwaggerClient

/-! ## Nodes that refer to a name -/

/-- Whether a node refers to a name, itself or anywhere in its fields. -/
inductive SchemaNode.Mentions (name : String) : SchemaNode → Prop
  | self {node : SchemaNode} (h : node.refName = some name) : Mentions name node
  | allOf {node part : SchemaNode} (hp : part ∈ node.allOf) (h : part.Mentions name) :
      Mentions name node
  | anyOf {node part : SchemaNode} (hp : part ∈ node.anyOf) (h : part.Mentions name) :
      Mentions name node
  | property {node : SchemaNode} {properties : List (String × SchemaNode)}
      {property : String × SchemaNode} (hps : node.properties = some properties)
      (hp : property ∈ properties) (h : property.2.Mentions name) : Mentions name node
  | items {node item : SchemaNode} (hi : node.items = some item) (h : item.Mentions name) :
      Mentions name node
  | additional {node value : SchemaNode} (hv : node.additional = some (.schema value))
      (h : value.Mentions name) : Mentions name node

/-- Whether a schema of a parameter or a response of an operation refers to a name. -/
def Operation.Mentions (o : Operation) (name : String) : Prop :=
  (∃ p ∈ o.parameters, ∃ node, p.schema = some node ∧ node.Mentions name) ∨
    ∃ r ∈ o.responses, ∃ node, r.2.schema = some node ∧ node.Mentions name

/-- Whether a definition or an operation of a document refers to a name. -/
def Document.Mentions (d : Document) (name : String) : Prop :=
  (∃ entry ∈ d.definitions, entry.2.Mentions name) ∨ ∃ r ∈ d.routes, r.operation.Mentions name

namespace SchemaNode

variable {node part : SchemaNode} {name : String}

theorem Mentions.of_part (hp : part ∈ node.parts) (h : part.Mentions name) :
    node.Mentions name := by
  simp only [parts, List.mem_append, List.mem_map, Option.mem_toList] at hp
  rcases hp with (((hp | hp) | ⟨property, hp, rfl⟩) | hp) | hp
  · exact .allOf hp h
  · exact .anyOf hp h
  · cases hps : node.properties with
    | none => simp [hps] at hp
    | some properties => exact .property hps (by simpa [hps] using hp) h
  · exact .items hp h
  · refine .additional ?_ h
    unfold additionalSchema at hp
    split at hp
    next value hvalue =>
      obtain rfl : value = part := by simpa using hp
      exact hvalue
    next => cases hp

/-- The references of a node that are looked at are those that it mentions. -/
theorem mem_refNames_iff (node : SchemaNode) : name ∈ node.refNames ↔ node.Mentions name := by
  constructor
  · induction node using SchemaNode.induct with
    | step node ih =>
      rw [refNames_eq, List.mem_append, Option.mem_toList, List.mem_flatMap]
      rintro (h | ⟨part, hp, h⟩)
      · exact .self h
      · exact (ih part hp h).of_part hp
  · intro h
    induction h with
    | self h =>
      rw [refNames_eq]
      exact List.mem_append_left _ (Option.mem_toList.2 h)
    | allOf hp _ ih => exact mem_refNames_of_part (mem_parts_of_allOf hp) ih
    | anyOf hp _ ih => exact mem_refNames_of_part (mem_parts_of_anyOf hp) ih
    | property hps hp _ ih =>
      exact mem_refNames_of_part (mem_parts_of_properties (by simpa [hps] using hp)) ih
    | items hi _ ih => exact mem_refNames_of_part (mem_parts_of_items hi) ih
    | additional hv _ ih =>
      exact mem_refNames_of_part (mem_parts_of_additional (by simp [additionalSchema, hv])) ih

end SchemaNode

theorem Operation.mem_refNames_iff {o : Operation} {name : String} :
    name ∈ o.schemas.flatMap SchemaNode.refNames ↔ o.Mentions name := by
  simp only [schemas, List.mem_flatMap, List.mem_append, List.mem_filterMap, Operation.Mentions,
    SchemaNode.mem_refNames_iff]
  constructor
  · rintro ⟨node, ⟨p, hp, hnode⟩ | ⟨r, hr, hnode⟩, h⟩
    · exact .inl ⟨p, hp, node, hnode, h⟩
    · exact .inr ⟨r, hr, node, hnode, h⟩
  · rintro (⟨p, hp, node, hnode, h⟩ | ⟨r, hr, node, hnode, h⟩)
    · exact ⟨node, .inl ⟨p, hp, hnode⟩, h⟩
    · exact ⟨node, .inr ⟨r, hr, hnode⟩, h⟩

/-! ## First entries -/

theorem firstEntries_eq_nil_iff {entries : List (String × String)} :
    firstEntries [] entries = [] ↔ entries = [] := by
  cases entries with
  | nil => simp [firstEntries]
  | cons entry entries => simp [firstEntries]

namespace Document

variable {d : Document} {name location : String}

theorem mem_references_iff : name ∈ d.references.map Prod.fst ↔ d.Mentions name := by
  have hroute : ∀ r : Route, name ∈ r.operation.schemas.flatMap SchemaNode.refNames ↔
      r.operation.Mentions name := fun r => Operation.mem_refNames_iff
  simp only [references, List.map_append, List.mem_append, List.map_flatMap, List.mem_flatMap,
    List.map_map, Function.comp_def, List.map_id', SchemaNode.mem_refNames_iff, Mentions,
    ← hroute]

theorem isNone_get?_iff : (d.definitions.get? name).isNone ↔ name ∉ d.definitions.keys :=
  Option.isNone_iff_eq_none.trans Dictionary.get?_eq_none_iff

end Document

/-- Nothing is reported when every reference has a definition, and only then. -/
theorem undefinedReferenceLint_eq_nil_iff {d : Document} :
    undefinedReferenceLint.check d = [] ↔
      ∀ name ∈ d.references.map Prod.fst, name ∈ d.definitions.keys := by
  have hnone : ∀ name, ¬ (d.definitions.get? name).isNone ↔ name ∈ d.definitions.keys :=
    fun name => not_iff_comm.1 Document.isNone_get?_iff.symm
  simp only [undefinedReferenceLint, Document.undefinedReferences, List.map_eq_nil_iff,
    firstEntries_eq_nil_iff, List.filter_eq_nil_iff, hnone, List.forall_mem_map]

/-! ## Schemas of the interface -/

namespace Operation

variable {o : Operation} {node : SchemaNode}

theorem mem_schemas_of_body (h : o.bodySchema = some node) : node ∈ o.schemas := by
  obtain ⟨p, hp, hnode⟩ := Option.bind_eq_some_iff.1 h
  have hp := List.mem_of_mem_filter (List.mem_of_mem_head? hp)
  exact List.mem_append_left _ (List.mem_filterMap.2 ⟨p, hp, hnode⟩)

theorem mem_schemas_of_success (h : o.successSchema = some node) : node ∈ o.schemas := by
  obtain ⟨r, hr, hnode⟩ := Option.bind_eq_some_iff.1 h
  have hr : ∃ status, (status, r) ∈ o.responses := by
    rcases Option.or_eq_some_iff.1 hr with h | ⟨-, h⟩
    · exact ⟨_, Dictionary.mem_of_get? h⟩
    · rcases Option.or_eq_some_iff.1 h with h | ⟨-, h⟩
      · obtain ⟨entry, hentry, rfl⟩ := Option.map_eq_some_iff.1 h
        exact ⟨entry.1, List.mem_of_find?_eq_some hentry⟩
      · exact ⟨_, Dictionary.mem_of_get? h⟩
  obtain ⟨status, hr⟩ := hr
  exact List.mem_append_right _ (List.mem_filterMap.2 ⟨_, hr, hnode⟩)

end Operation

namespace Document

variable {d : Document} {name : String}

theorem mem_references_of_route {route : Route} (hr : route ∈ d.routes) {node : SchemaNode}
    (hn : node ∈ route.operation.schemas) (hname : name ∈ node.refNames) :
    name ∈ d.references.map Prod.fst :=
  mem_references_iff.2 (.inr ⟨route, hr, Operation.mem_refNames_iff.1
    (List.mem_flatMap.2 ⟨node, hn, hname⟩)⟩)

theorem mem_references_of_definition {definition : String × SchemaNode}
    (hd : definition ∈ d.definitions) (hname : name ∈ definition.2.refNames) :
    name ∈ d.references.map Prod.fst :=
  mem_references_iff.2 (.inl ⟨definition, hd, (SchemaNode.mem_refNames_iff _).1 hname⟩)

end Document

end SwaggerClient
