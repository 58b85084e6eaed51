import SwaggerClient.Proofs.Api.References

/-!
# The names that a document asks for

Lowering an operation asks for the names that its schemas consult, and for those that the
definitions of these names consult in turn.  No definition is entered inside itself, yet none
of these names is missed: the expansion that goes on around a reference that stays comes to
all that lies behind it.  So the targets without a definition are the names asked for that no
definition has.
-/

namespace SwaggerClient

namespace Route

variable {definitions : Definitions} {route : Route} {target : Target}
  {bound : Nat} {enclosing : List String} {definition name : String} {node : SchemaNode}

/-- The schemas that an operation is lowered from: those of its body and of its response. -/
def given (route : Route) : List SchemaNode :=
  route.operation.bodySchema.toList ++ route.operation.successSchema.toList

/-- Whether a name is looked up when an operation is lowered. -/
inductive Consults (definitions : Definitions) (route : Route) : String → Prop
  | schema {node : SchemaNode} {name : String} (hn : node ∈ route.given)
      (h : node.Consults name) : Consults definitions route name
  | definition {definition name : String} {node : SchemaNode}
      (hd : Consults definitions route definition) (hn : definitions.get? definition = some node)
      (h : node.Consults name) : Consults definitions route name

theorem targets_eq (definitions : Definitions) (route : Route) :
    route.targets definitions =
      route.given.flatMap fun node => (definitions.expandNode [] node).references := by
  simp [targets, Definitions.givenTargets, given]

/-! ## What is looked up by targets -/

theorem closed_consults (definitions : Definitions) (route : Route) :
    definitions.Closed (route.Consults definitions) :=
  fun _ _ hd hn _ => .definition hd hn

/-- The targets in an operation are looked up. -/
theorem leaves_of_mem_targets (h : target ∈ route.targets definitions) :
    definitions.Leaves (route.Consults definitions) target := by
  rw [targets_eq, List.mem_flatMap] at h
  obtain ⟨node, hn, h⟩ := h
  exact definitions.leaves_expandNode (closed_consults _ _) (fun _ => .schema hn) h

/-- The targets in the expansion of a definition that is looked up are looked up. -/
theorem leaves_of_expandDefinition (hc : route.Consults definitions definition)
    (h : target ∈ (definitions.expandDefinition definition).references) :
    definitions.Leaves (route.Consults definitions) target := by
  unfold Definitions.expandDefinition at h
  split at h
  next node hnode =>
    exact definitions.leaves_expandNode (closed_consults _ _) (fun _ => .definition hc hnode) h
  next => simp [TypeExpr.references, TypeExpr.unknown] at h

/-! ## Targets of what is looked up -/

/-- Whether the expansion of an operation comes to a name inside some definitions, with a
bound on how many more are entered. -/
inductive Visits (definitions : Definitions) (route : Route) : Nat → List String → String → Prop
  | schema {node : SchemaNode} {name : String} (hn : node ∈ route.given)
      (h : node.Consults name) : Visits definitions route definitions.length [] name
  | enter {bound : Nat} {enclosing : List String} {definition name : String} {node : SchemaNode}
      (hv : Visits definitions route (bound + 1) enclosing definition)
      (hnew : definition ∉ enclosing) (hn : definitions.get? definition = some node)
      (h : node.Consults name) : Visits definitions route bound (definition :: enclosing) name

namespace Visits

/-- What is left where the expansion comes by is left in the end. -/
theorem mem_targets (h : route.Visits definitions bound enclosing name)
    (ht : target ∈ (definitions.follow bound enclosing name).references) :
    target ∈ route.targets definitions := by
  induction h with
  | schema hn hname =>
    rw [targets_eq]
    exact List.mem_flatMap.2 ⟨_, hn, (SchemaNode.mem_references_expand_iff _ _).2 ⟨_, hname, ht⟩⟩
  | enter _ hnew hn hname ih =>
    refine ih ?_
    rw [Definitions.follow_succ _ _ hn hnew]
    exact (SchemaNode.mem_references_expand_iff _ _).2 ⟨_, hname, ht⟩

/-- The bound is room for as many definitions as it says. -/
theorem room (h : route.Visits definitions bound enclosing name) :
    definitions.Room bound enclosing := by
  induction h with
  | schema => exact .nil definitions
  | enter _ hnew hn _ ih =>
    obtain ⟨rest, hbound, hroom⟩ := ih.enter hn hnew
    obtain rfl := Nat.succ.inj hbound
    exact hroom

/-- A definition in progress has been entered, so the expansion comes to all that it
consults. -/
theorem exists_of_mem (h : route.Visits definitions bound enclosing name)
    (hd : definition ∈ enclosing) (hn : definitions.get? definition = some node) {ref : String}
    (href : node.Consults ref) : ∃ b e, route.Visits definitions b e ref := by
  induction h with
  | schema => cases hd
  | @enter bound enclosing _ _ _ hv hnew hn' _ ih =>
    rcases List.mem_cons.1 hd with rfl | hd
    · exact ⟨bound, definition :: enclosing, .enter hv hnew hn href⟩
    · exact ih hd

end Visits

/-- The expansion of an operation comes to every name that is looked up. -/
theorem Consults.visits (h : route.Consults definitions name) :
    ∃ b e, route.Visits definitions b e name := by
  induction h with
  | schema hn hname => exact ⟨_, [], .schema hn hname⟩
  | @definition definition name node _ hn hname ih =>
    obtain ⟨bound, enclosing, hv⟩ := ih
    by_cases hm : definition ∈ enclosing
    · exact hv.exists_of_mem hm hn hname
    · obtain ⟨rest, rfl, -⟩ := hv.room.enter hn hm
      exact ⟨rest, definition :: enclosing, .enter hv hm hn hname⟩

/-- The undefined targets in an operation are the names looked up that no definition has. -/
theorem undefined_mem_targets_iff :
    .undefined name ∈ route.targets definitions ↔
      definitions.get? name = none ∧ route.Consults definitions name := by
  refine ⟨leaves_of_mem_targets, fun ⟨hnone, hc⟩ => ?_⟩
  obtain ⟨bound, enclosing, hv⟩ := hc.visits
  refine hv.mem_targets ?_
  rw [Definitions.follow_of_none _ _ hnone]
  simp [TypeExpr.references]

end Route

/-! ## Documents -/

namespace Document

variable {d : Document} {name definition : String} {route : Route} {type : TypeExpr Target}

/-- Whether a name is looked up when a document is lowered, and no definition has it. -/
def Stray (d : Document) (name : String) : Prop :=
  name ∉ d.definitions.keys ∧ ∃ route ∈ d.routes, route.Consults d.definitions name

/-- The expansions that the types in the interface of a document are made of. -/
def expansions (d : Document) : List (TypeExpr Target) :=
  (d.routes.flatMap fun route => route.given.map (d.definitions.expandNode [])) ++
    d.declarations.map fun entry => d.definitions.expandDefinition entry.1

/-- The types of an endpoint are the expansions of the schemas of its operation. -/
theorem endpointOf_types (d : Document) (route : Route) :
    (d.endpointOf route).body.toList ++ (d.endpointOf route).response.toList =
      (route.given.map (d.definitions.expandNode [])).map
        (TypeExpr.mapReferences d.declarations.nameOf) := by
  simp only [endpointOf, Route.expandedEndpoint, Route.endpoint, Definitions.givenType,
    Route.given]
  cases route.operation.bodySchema <;> cases route.operation.successSchema <;> rfl

/-- The types in the interface of a document are the expansions with their targets named. -/
theorem types_eq (d : Document) :
    d.api.types = d.expansions.map (TypeExpr.mapReferences d.declarations.nameOf) := by
  rw [Api.types, api_endpoints_eq_map, api_named, expansions, List.map_append, List.map_flatMap,
    List.flatMap_map, List.map_map, List.map_map]
  exact congrArg₂ _ (List.flatMap_congr fun route _ => d.endpointOf_types route) rfl

theorem expandDefinition_mem_expansions
    (h : definition ∈ d.declarations.map Prod.fst) :
    d.definitions.expandDefinition definition ∈ d.expansions := by
  obtain ⟨entry, he, rfl⟩ := List.mem_map.1 h
  exact List.mem_append_right _ (List.mem_map_of_mem he)

theorem expandNode_mem_expansions (hr : route ∈ d.routes) {node : SchemaNode}
    (hn : node ∈ route.given) : d.definitions.expandNode [] node ∈ d.expansions :=
  List.mem_append_left _ (List.mem_flatMap.2 ⟨route, hr, List.mem_map_of_mem hn⟩)

theorem covers_of_mem_expansions (h : type ∈ d.expansions) :
    d.declarations.Covers type.references := by
  rcases List.mem_append.1 h with h | h
  · obtain ⟨route, hr, h⟩ := List.mem_flatMap.1 h
    obtain ⟨node, hn, rfl⟩ := List.mem_map.1 h
    intro definition hd
    refine covers_targets hr definition ?_
    rw [Route.targets_eq]
    exact List.mem_flatMap.2 ⟨node, hn, hd⟩
  · obtain ⟨entry, he, rfl⟩ := List.mem_map.1 h
    exact covers_expandDefinition he

/-- A declared definition is looked up in some operation. -/
theorem exists_consults_of_declared (hd : definition ∈ d.declarations.map Prod.fst) :
    ∃ route ∈ d.routes, route.Consults d.definitions definition := by
  refine d.api_spec.2.2.forall_mem
    (p := fun definition => ∃ route ∈ d.routes, route.Consults d.definitions definition)
    ?_ ?_ definition hd
  · rintro definition ⟨route, hr, hc⟩ other ho
    exact ⟨route, hr, (Route.leaves_of_expandDefinition hc ho).2⟩
  · intro definition hd
    have hmem := (Declarations.mem_declareTargets hd).resolve_left (by simp)
    obtain ⟨route, hr, ht⟩ := List.mem_flatMap.1 hmem
    exact ⟨route, hr, (Route.leaves_of_mem_targets ht).2⟩

/-- A stray name is left as a target in some operation. -/
theorem Stray.exists_mem_targets (h : d.Stray name) :
    ∃ route ∈ d.routes, .undefined name ∈ route.targets d.definitions := by
  obtain ⟨hkey, route, hr, hc⟩ := h
  exact ⟨route, hr, Route.undefined_mem_targets_iff.2 ⟨Dictionary.get?_eq_none_iff.2 hkey, hc⟩⟩

theorem stray_of_leaves (hr : route ∈ d.routes)
    (h : d.definitions.Leaves (route.Consults d.definitions) (.undefined name)) : d.Stray name :=
  ⟨Dictionary.get?_eq_none_iff.1 h.1, route, hr, h.2⟩

/-- The undefined targets in the interface of a document are the stray names. -/
theorem stray_iff_mem_references :
    d.Stray name ↔ ∃ type ∈ d.expansions, .undefined name ∈ type.references := by
  constructor
  · intro h
    obtain ⟨route, hr, ht⟩ := h.exists_mem_targets
    rw [Route.targets_eq, List.mem_flatMap] at ht
    obtain ⟨node, hn, ht⟩ := ht
    exact ⟨_, expandNode_mem_expansions hr hn, ht⟩
  · rintro ⟨type, htype, ht⟩
    rcases List.mem_append.1 htype with htype | htype
    · obtain ⟨route, hr, htype⟩ := List.mem_flatMap.1 htype
      obtain ⟨node, hn, rfl⟩ := List.mem_map.1 htype
      refine stray_of_leaves hr (Route.leaves_of_mem_targets ?_)
      rw [Route.targets_eq]
      exact List.mem_flatMap.2 ⟨node, hn, ht⟩
    · obtain ⟨entry, he, rfl⟩ := List.mem_map.1 htype
      obtain ⟨route, hr, hc⟩ := exists_consults_of_declared (List.mem_map_of_mem he)
      exact stray_of_leaves hr (Route.leaves_of_expandDefinition hc ht)

end Document

end SwaggerClient
