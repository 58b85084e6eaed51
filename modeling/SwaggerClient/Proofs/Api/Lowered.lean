import SwaggerClient.Api.OfDocument
import SwaggerClient.Proofs.Api.Named
import SwaggerClient.Proofs.Lint.UndefinedReference
import SwaggerClient.Proofs.Schema.Lowering

/-!
# The interface of a document, schema by schema

Every type in the interface of a document is the expansion of a schema, with its
targets named by the declarations that the whole document leads to.
-/

namespace SwaggerClient

open LoweringState (lowering)

variable {σ : Type} [LoweringState σ] {definitions : Definitions} {I : σ → Prop}

namespace Definitions

/-- The expansion of a schema that may not be given, with its targets named. -/
def givenType (definitions : Definitions) (names : Target → String) (node : Option SchemaNode) :
    Option (TypeExpr String) :=
  node.map fun node => (definitions.expandNode [] node).mapReferences names

/-- The targets in the expansion of a schema that may not be given. -/
def givenTargets (definitions : Definitions) (node : Option SchemaNode) : List Target :=
  node.toList.flatMap fun node => (definitions.expandNode [] node).references

theorem lowers_lowerGiven (hI : Invariant definitions I) (node : Option SchemaNode) :
    Lowers I [] (definitions.lowerGiven node) (definitions.givenTargets node)
      fun names => definitions.givenType names node := by
  cases node with
  | none => exact Lowers.pure _
  | some node =>
    exact ((lowersTo_lowerNode hI node).bind_pure some).congr (by simp [givenTargets])
      fun _ => rfl

end Definitions

namespace Route

/-- The endpoint of an operation with the expansions of its schemas. -/
def expandedEndpoint (definitions : Definitions) (names : Target → String) (route : Route) :
    Endpoint :=
  route.endpoint (definitions.givenType names route.operation.bodySchema)
    (definitions.givenType names route.operation.successSchema)

/-- The targets in the expansions of the schemas of an operation. -/
def targets (definitions : Definitions) (route : Route) : List Target :=
  definitions.givenTargets route.operation.bodySchema
    ++ definitions.givenTargets route.operation.successSchema

theorem lowers_lower (hI : Invariant definitions I) (route : Route) :
    Lowers I [] (route.lower definitions) (route.targets definitions)
      fun names => route.expandedEndpoint definitions names :=
  (Definitions.lowers_lowerGiven hI _).bind₂ route.endpoint (Definitions.lowers_lowerGiven hI _)

end Route

namespace Document

/-- The declarations that a document leads to. -/
def declarations (d : Document) : Declarations :=
  match (d.lower : LoweringM Lowering Api).run {} with
  | some (_, l) => l.declared
  | none => []

/-- The endpoints of a document before it is known which named types they need. -/
def expandedEndpoints (d : Document) : List Endpoint :=
  d.routes.map (Route.expandedEndpoint d.definitions d.declarations.nameOf)

/-- The interface of a document: its operations in order with the named types that they
need, and the type of every declaration.  The declarations are sound, and they are those of
the targets in the operations and then of the targets in what is declared. -/
theorem api_spec (d : Document) :
    d.api = ⟨d.expandedEndpoints.map fun e => { e with requires := e.requiredNames d.api.named },
        d.declarations.map (d.definitions.namedType d.declarations)⟩ ∧
      Declarations.Sound d.definitions d.declarations ∧
      d.definitions.Declares 0
        (Declarations.declareTargets [] (d.routes.flatMap (Route.targets d.definitions)))
        d.declarations := by
  have hI := Lowering.invariant_sound d.definitions
  obtain ⟨endpoints, s, hrun, hs, hls, hendpoints⟩ :=
    Lowers.mapM d.routes (fun route _ => Route.lowers_lower hI route) {} (.start _) rfl
  obtain ⟨t, hnamed, ht, het, hst⟩ := d.definitions.lowerDeclared_spec hI hs (by rw [hls])
  have hlower : (d.lower : LoweringM Lowering Api).run {} = some
      (⟨endpoints.map fun e =>
          { e with requires := e.requiredNames (t.declared.map (d.definitions.namedType t.declared)) },
        t.declared.map (d.definitions.namedType t.declared)⟩, t) := by
    simp only [lower, StateT.run_bind, hrun]
    simp only [Option.bind_eq_bind, Option.bind_some, hnamed]
    rfl
  have hdeclared : d.declarations = t.declared := by rw [declarations, hlower]
  have hendpoints := hendpoints t.declared hst.prefix_later
  rw [hdeclared]
  refine ⟨?_, ht.declared, ?_⟩
  · rw [api, hlower, expandedEndpoints, hdeclared, hendpoints]
  · rwa [hls] at hst

variable {d : Document}

theorem api_named (d : Document) :
    d.api.named = d.declarations.map (d.definitions.namedType d.declarations) :=
  congrArg Api.named d.api_spec.1

theorem api_endpoints (d : Document) :
    d.api.endpoints =
      d.expandedEndpoints.map fun e => { e with requires := e.requiredNames d.api.named } :=
  congrArg Api.endpoints d.api_spec.1

/-- The endpoint of an operation of a document. -/
def endpointOf (d : Document) (route : Route) : Endpoint :=
  let e := route.expandedEndpoint d.definitions d.declarations.nameOf
  { e with requires := e.requiredNames d.api.named }

theorem api_endpoints_eq_map (d : Document) : d.api.endpoints = d.routes.map d.endpointOf := by
  rw [api_endpoints, expandedEndpoints, List.map_map]
  rfl

theorem declarations_sound (d : Document) : Declarations.Sound d.definitions d.declarations :=
  d.api_spec.2.1

/-- The targets in an operation are declared. -/
theorem covers_targets {route : Route} (hr : route ∈ d.routes) :
    d.declarations.Covers (route.targets d.definitions) := fun definition hd =>
  (Declarations.covers_declareTargets _ _).mono d.api_spec.2.2.prefix_later definition
    (List.mem_flatMap.2 ⟨route, hr, hd⟩)

/-- The targets in a declared definition are declared. -/
theorem covers_expandDefinition {entry : String × String} (he : entry ∈ d.declarations) :
    d.declarations.Covers (d.definitions.expandDefinition entry.1).references :=
  d.api_spec.2.2.covers entry he

theorem names_named (d : Document) : d.api.named.map (·.name) = d.declarations.map Prod.snd := by
  rw [api_named, List.map_map]
  rfl

theorem named_nodup (d : Document) : (d.api.named.map (·.name)).Nodup := by
  rw [names_named]
  exact d.declarations_sound.names_nodup

theorem exists_definition {entry : String × String} (he : entry ∈ d.declarations) :
    ∃ node, d.definitions.get? entry.1 = some node :=
  Option.isSome_iff_exists.1
    (Dictionary.mem_keys_iff.1 (d.declarations_sound.subset (List.mem_map_of_mem he)))

/-- A declared definition is found among the named types under its type name. -/
theorem findNamed_typeName {definition : String} (h : definition ∈ d.declarations.map Prod.fst) :
    findNamed d.api.named (d.declarations.typeName definition) =
      some (d.definitions.namedType d.declarations
        (definition, d.declarations.typeName definition)) := by
  have hmem : d.definitions.namedType d.declarations
      (definition, d.declarations.typeName definition) ∈ d.api.named := by
    rw [api_named]
    exact List.mem_map_of_mem (Declarations.mem_typeName h)
  exact findNamed_of_mem d.named_nodup hmem

/-! ## Targets -/

/-- What the targets in a document are: declared definitions, and names of references
that no definition has. -/
def Target.Known (d : Document) : Target → Prop
  | .undefined name => d.definitions.get? name = none ∧ name ∈ d.references.map Prod.fst
  | .enclosing definition => definition ∈ d.declarations.map Prod.fst

/-- A known target is a declared definition when no reference is undefined. -/
theorem declared_of_known (hlint : undefinedReferenceLint.check d = []) {target : Target}
    (h : Target.Known d target) :
    ∃ definition ∈ d.declarations.map Prod.fst, target = .enclosing definition := by
  cases target with
  | enclosing definition => exact ⟨definition, h, rfl⟩
  | undefined name =>
    have hkey := undefinedReferenceLint_eq_nil_iff.1 hlint name h.2
    rw [Dictionary.mem_keys_iff, h.1] at hkey
    cases hkey

/-- The targets in the expansion of a node are known when they have names and the
references of the node are references of the document. -/
theorem known_of_covers {enclosing : List String} {node : SchemaNode}
    (hc : d.declarations.Covers (d.definitions.expandNode enclosing node).references)
    (hnode : ∀ name ∈ node.refNames, name ∈ d.references.map Prod.fst) :
    ∀ target ∈ (d.definitions.expandNode enclosing node).references, Target.Known d target := by
  intro target ht
  have hclosed : d.definitions.Closed (· ∈ d.references.map Prod.fst) :=
    fun _ _ _ hn _ href => mem_references_of_definition (Dictionary.mem_of_get? hn)
      href.mem_refNames
  have hleaves := d.definitions.leaves_expandNode hclosed
    (fun name href => hnode name href.mem_refNames) ht
  cases target with
  | enclosing definition => exact hc definition ht
  | undefined name => exact hleaves

theorem known_of_body {route : Route} (hr : route ∈ d.routes) {node : SchemaNode}
    (hn : route.operation.bodySchema = some node) :
    ∀ target ∈ (d.definitions.expandNode [] node).references, Target.Known d target := by
  refine known_of_covers (fun definition hd => ?_) fun name =>
    mem_references_of_route hr (Operation.mem_schemas_of_body hn)
  refine covers_targets hr definition (List.mem_append_left _ ?_)
  simpa [Definitions.givenTargets, hn] using hd

theorem known_of_success {route : Route} (hr : route ∈ d.routes) {node : SchemaNode}
    (hn : route.operation.successSchema = some node) :
    ∀ target ∈ (d.definitions.expandNode [] node).references, Target.Known d target := by
  refine known_of_covers (fun definition hd => ?_) fun name =>
    mem_references_of_route hr (Operation.mem_schemas_of_success hn)
  refine covers_targets hr definition (List.mem_append_right _ ?_)
  simpa [Definitions.givenTargets, hn] using hd

theorem known_of_declared {entry : String × String} (he : entry ∈ d.declarations)
    {node : SchemaNode} (hn : d.definitions.get? entry.1 = some node) :
    ∀ target ∈ (d.definitions.expandNode [entry.1] node).references, Target.Known d target := by
  refine known_of_covers ?_ fun name =>
    mem_references_of_definition (Dictionary.mem_of_get? hn)
  have := covers_expandDefinition he
  rwa [Definitions.expandDefinition, hn] at this

/-- The references of the types of an endpoint name known targets. -/
theorem known_of_endpoint {e : Endpoint} (he : e ∈ d.api.endpoints) {type : TypeExpr String}
    (ht : type ∈ e.body.toList ++ e.response.toList) {name : String}
    (hname : name ∈ type.references) :
    ∃ target, Target.Known d target ∧ name = d.declarations.nameOf target := by
  rw [api_endpoints, expandedEndpoints, List.map_map] at he
  obtain ⟨route, hr, rfl⟩ := List.mem_map.1 he
  have hnode : ∃ node,
      type = (d.definitions.expandNode [] node).mapReferences d.declarations.nameOf ∧
      ∀ target ∈ (d.definitions.expandNode [] node).references, Target.Known d target := by
    rcases List.mem_append.1 ht with ht | ht
    · obtain ⟨node, hn, rfl⟩ := Option.map_eq_some_iff.1 (Option.mem_toList.1 ht)
      exact ⟨node, rfl, known_of_body hr hn⟩
    · obtain ⟨node, hn, rfl⟩ := Option.map_eq_some_iff.1 (Option.mem_toList.1 ht)
      exact ⟨node, rfl, known_of_success hr hn⟩
  obtain ⟨node, rfl, hknown⟩ := hnode
  rw [TypeExpr.references_mapReferences] at hname
  obtain ⟨target, htarget, rfl⟩ := List.mem_map.1 hname
  exact ⟨target, hknown target htarget, rfl⟩

/-- The references of the type of a named type name known targets. -/
theorem known_of_named {n : NamedType} (hn : n ∈ d.api.named) {name : String}
    (hname : name ∈ n.type.references) :
    ∃ target, Target.Known d target ∧ name = d.declarations.nameOf target := by
  rw [api_named] at hn
  obtain ⟨entry, he, rfl⟩ := List.mem_map.1 hn
  obtain ⟨node, hnode⟩ := exists_definition he
  rw [Definitions.namedType, Definitions.expandDefinition, hnode,
    TypeExpr.references_mapReferences] at hname
  obtain ⟨target, htarget, rfl⟩ := List.mem_map.1 hname
  exact ⟨target, known_of_declared he hnode target htarget, rfl⟩

end Document

end SwaggerClient
