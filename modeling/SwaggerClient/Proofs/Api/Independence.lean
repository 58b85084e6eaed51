import SwaggerClient.Proofs.Api.Consulted
import SwaggerClient.Proofs.Api.Groups
import SwaggerClient.Proofs.Api.Renaming

/-!
# Groups do not depend on each other

All operations of a document share its declarations, so what other groups declare decides on the
type names that are free when a group comes to a definition.  That is all that they decide: with
other type names, the endpoints of a group and the types that they need are the same whatever
other groups there are.
-/

namespace SwaggerClient.Document

variable {d d' : Document} {ρ : String → String} {definition name : String} {route : Route}
  {type : TypeExpr Target}

/-! ## What is known of schemas -/

theorem known_of_given (hr : route ∈ d.routes) {node : SchemaNode} (hn : node ∈ route.given) :
    ∀ target ∈ (d.definitions.expandNode [] node).references, Target.Known d target := by
  rcases List.mem_append.1 hn with hn | hn
  · exact known_of_body hr (Option.mem_toList.1 hn)
  · exact known_of_success hr (Option.mem_toList.1 hn)

theorem known_of_expandDefinition (h : definition ∈ d.declarations.map Prod.fst) :
    ∀ target ∈ (d.definitions.expandDefinition definition).references, Target.Known d target := by
  have he := Declarations.mem_typeName h
  obtain ⟨node, hn⟩ := exists_definition he
  rw [Definitions.expandDefinition, hn]
  exact known_of_declared he hn

/-! ## Two documents -/

/-- Whether a name is the type name, in one document, of a definition that is declared in both. -/
def SharedName (d d' : Document) (name : String) : Prop :=
  ∃ definition ∈ d.declarations.map Prod.fst, definition ∈ d'.declarations.map Prod.fst ∧
    name = d.declarations.typeName definition

/-- Whether two documents have the same definitions, the first has no undefined references, and a
renaming takes the type names in the first to those in the second. -/
structure Alike (d d' : Document) (ρ : String → String) : Prop where
  same : ∀ name, d.definitions.get? name = d'.definitions.get? name
  silent : undefinedReferenceLint.check d = []
  injective : Function.Injective ρ
  typeName : ∀ definition ∈ d.declarations.map Prod.fst,
    definition ∈ d'.declarations.map Prod.fst →
      ρ (d.declarations.typeName definition) = d'.declarations.typeName definition

/-- The definitions declared in both documents have different type names in each, so one renaming
serves all of them. -/
theorem exists_alike (hsame : ∀ name, d.definitions.get? name = d'.definitions.get? name)
    (hsilent : undefinedReferenceLint.check d = []) : ∃ ρ : Equiv.Perm String, Alike d d' ρ := by
  obtain ⟨ρ, hρ⟩ := exists_perm_of_injOn (f := d.declarations.typeName)
    (g := d'.declarations.typeName)
    ((d.declarations.map Prod.fst).filter (· ∈ d'.declarations.map Prod.fst))
    (fun i hi j hj => d.declarations_sound.eq_of_typeName_eq
      (List.mem_filter.1 hi).1 (List.mem_filter.1 hj).1)
    (fun i hi j hj => d'.declarations_sound.eq_of_typeName_eq
      (of_decide_eq_true (List.mem_filter.1 hi).2) (of_decide_eq_true (List.mem_filter.1 hj).2))
  refine ⟨ρ, hsame, hsilent, ρ.injective, fun definition hd hd' => ?_⟩
  exact hρ definition (List.mem_filter.2 ⟨hd, decide_eq_true hd'⟩)

namespace Alike

/-- A target known in both documents is a definition declared in both. -/
theorem exists_definition (h : Alike d d' ρ) {target : Target}
    (hk : Target.Known d target ∧ Target.Known d' target) :
    ∃ definition ∈ d.declarations.map Prod.fst, definition ∈ d'.declarations.map Prod.fst ∧
      target = .enclosing definition := by
  obtain ⟨definition, hd, rfl⟩ := declared_of_known h.silent hk.1
  exact ⟨definition, hd, hk.2, rfl⟩

/-- A type whose targets are known in both documents is the same in both under other names. -/
theorem mapReferences_eq (h : Alike d d' ρ)
    (hk : ∀ target ∈ type.references, Target.Known d target ∧ Target.Known d' target) :
    type.mapReferences d'.declarations.nameOf =
      (type.mapReferences d.declarations.nameOf).mapReferences ρ := by
  refine (TypeExpr.mapReferences_mapReferences fun target ht => ?_).symm
  obtain ⟨definition, hd, hd', rfl⟩ := h.exists_definition (hk target ht)
  exact h.typeName definition hd hd'

theorem sharedName_of_mem (h : Alike d d' ρ)
    (hk : ∀ target ∈ type.references, Target.Known d target ∧ Target.Known d' target) :
    ∀ ref ∈ (type.mapReferences d.declarations.nameOf).references, SharedName d d' ref := by
  intro ref href
  rw [TypeExpr.references_mapReferences] at href
  obtain ⟨target, ht, rfl⟩ := List.mem_map.1 href
  obtain ⟨definition, hd, hd', rfl⟩ := h.exists_definition (hk target ht)
  exact ⟨definition, hd, hd', rfl⟩

/-! ### Definitions -/

theorem expandDefinition_eq (h : Alike d d' ρ) (definition : String) :
    d'.definitions.expandDefinition definition = d.definitions.expandDefinition definition :=
  (Definitions.expandDefinition_congr (p := fun _ => True) (fun _ _ _ _ _ _ => trivial)
    (fun name _ => h.same name) trivial).symm

/-- The types of definitions that are declared in both documents are the same under other
names. -/
theorem renames (h : Alike d d' ρ) :
    Renames ρ (SharedName d d') d.api.named d'.api.named where
  injective := h.injective
  find := by
    rintro _ ⟨definition, hd, hd', rfl⟩
    have hk : ∀ target ∈ (d.definitions.expandDefinition definition).references,
        Target.Known d target ∧ Target.Known d' target := fun target ht =>
      ⟨known_of_expandDefinition hd target ht,
        known_of_expandDefinition hd' target (h.expandDefinition_eq definition ▸ ht)⟩
    refine ⟨_, findNamed_typeName hd, ?_, h.sharedName_of_mem hk⟩
    rw [h.typeName definition hd hd', findNamed_typeName hd']
    simp only [Definitions.namedType, NamedType.rename, h.typeName definition hd hd',
      h.expandDefinition_eq, h.mapReferences_eq hk]

/-! ### Operations -/

theorem expandNode_eq (h : Alike d d' ρ) (node : SchemaNode) :
    d'.definitions.expandNode [] node = d.definitions.expandNode [] node :=
  (Definitions.expandNode_congr (p := fun _ => True) (fun _ _ _ _ _ _ => trivial)
    (fun name _ => h.same name) (fun _ _ => trivial) (.nil _) (.nil _)).symm

theorem known_of_given (h : Alike d d' ρ) (hr : route ∈ d.routes) (hr' : route ∈ d'.routes)
    {node : SchemaNode} (hn : node ∈ route.given) :
    ∀ target ∈ (d.definitions.expandNode [] node).references,
      Target.Known d target ∧ Target.Known d' target := fun target ht =>
  ⟨Document.known_of_given hr hn target ht,
    Document.known_of_given hr' hn target (h.expandNode_eq node ▸ ht)⟩

/-- A schema of an operation of both documents has the same type under other names. -/
theorem givenType_eq (h : Alike d d' ρ) (hr : route ∈ d.routes) (hr' : route ∈ d'.routes)
    {schema : Option SchemaNode} (hs : schema.toList ⊆ route.given) :
    d'.definitions.givenType d'.declarations.nameOf schema =
      (d.definitions.givenType d.declarations.nameOf schema).map (TypeExpr.mapReferences ρ) := by
  cases schema with
  | none => rfl
  | some node =>
    have hn : node ∈ route.given := hs (by simp)
    simp only [Definitions.givenType, Option.map_some, h.expandNode_eq,
      h.mapReferences_eq (h.known_of_given hr hr' hn)]

theorem sharedName_of_endpointOf (h : Alike d d' ρ) (hr : route ∈ d.routes)
    (hr' : route ∈ d'.routes) :
    ∀ type ∈ (d.endpointOf route).body.toList ++ (d.endpointOf route).response.toList,
      ∀ ref ∈ type.references, SharedName d d' ref := by
  intro type ht
  rw [endpointOf_types, List.map_map] at ht
  obtain ⟨node, hn, rfl⟩ := List.mem_map.1 ht
  exact h.sharedName_of_mem (h.known_of_given hr hr' hn)

/-- An operation of both documents has the same endpoint under other names. -/
theorem endpointOf_eq (h : Alike d d' ρ) (hr : route ∈ d.routes) (hr' : route ∈ d'.routes) :
    d'.endpointOf route = (d.endpointOf route).rename ρ := by
  have hbody := h.givenType_eq hr hr' (List.subset_append_left _ _)
  have hresponse := h.givenType_eq hr hr' (List.subset_append_right _ _)
  have htypes : route.expandedEndpoint d'.definitions d'.declarations.nameOf =
      (route.expandedEndpoint d.definitions d.declarations.nameOf).rename ρ := by
    simp only [Route.expandedEndpoint, Route.endpoint, Endpoint.rename, List.map_nil, hbody,
      hresponse]
  have hrequires := h.renames.requiredNames_rename (h.sharedName_of_endpointOf hr hr')
  simp only [endpointOf, htypes]
  exact congrArg (fun requires => { (d.endpointOf route).rename ρ with requires }) hrequires

/-- What an endpoint requires is found in both documents, under other names. -/
theorem find_of_mem_requires (h : Alike d d' ρ) (hr : route ∈ d.routes) (hr' : route ∈ d'.routes)
    (hname : name ∈ (d.endpointOf route).requires) :
    ∃ n, d.api.namedType? name = some n ∧ d'.api.namedType? (ρ name) = some (n.rename ρ) := by
  obtain ⟨type, ht, hreaches⟩ := ((requiredNames_spec _ d.api.named).2 name).1 hname
  have hshared := h.renames.of_reaches hreaches (h.sharedName_of_endpointOf hr hr' type ht)
  obtain ⟨n, hn, hn', -⟩ := h.renames.find name hshared
  exact ⟨n, hn, hn'⟩

end Alike

/-! ## Groups -/

/-- Groups do not depend on each other.  In two documents with the same definitions, one of them
without undefined references, a group with the same operations has the same endpoints, whatever
other groups there are, and these require the same named types: there is a renaming of type
names, no two to the same, that takes the ones to the others. -/
theorem groups_independent (d d' : Document)
    (hsame : ∀ name, d.definitions.get? name = d'.definitions.get? name)
    (hsilent : undefinedReferenceLint.check d = []) (group : String)
    (hroutes : (d.routes.filter fun r => UrlTemplate.group r.url == group) =
      d'.routes.filter fun r => UrlTemplate.group r.url == group) :
    ∃ ρ : String → String, Function.Injective ρ ∧
      d'.api.endpointsIn group = (d.api.endpointsIn group).map (Endpoint.rename ρ) ∧
      ∀ e ∈ d.api.endpointsIn group, ∀ name ∈ e.requires,
        ∃ n, d.api.namedType? name = some n ∧ d'.api.namedType? (ρ name) = some (n.rename ρ) := by
  obtain ⟨ρ, h⟩ := exists_alike hsame hsilent
  have hboth : ∀ r ∈ d.routes.filter fun r => UrlTemplate.group r.url == group,
      r ∈ d.routes ∧ r ∈ d'.routes := fun r hr =>
    ⟨List.mem_of_mem_filter hr, List.mem_of_mem_filter (hroutes ▸ hr)⟩
  refine ⟨ρ, ρ.injective, ?_, fun e he name hname => ?_⟩
  · rw [endpointsIn_eq, endpointsIn_eq, ← hroutes, List.map_map]
    exact List.map_congr_left fun r hr => h.endpointOf_eq (hboth r hr).1 (hboth r hr).2
  · rw [endpointsIn_eq] at he
    obtain ⟨r, hr, rfl⟩ := List.mem_map.1 he
    exact h.find_of_mem_requires (hboth r hr).1 (hboth r hr).2 hname

/-- An operation whose response has the type of a definition. -/
def servingPath (url definition : String) : String × PathItem :=
  (url, [(.get, { responses := [("200", { schema := some (referenceTo definition) })] })])

/-- A document with two definitions that contain themselves and whose names make one
identifier. -/
def servingDocument (paths : Dictionary String PathItem) : Document where
  paths
  definitions := [
    ("model.Menu", { properties := some [("next", referenceTo "model.Menu")] }),
    ("ModelMenu", { properties := some [("next", referenceTo "ModelMenu")] })]

/-- The menu by itself. -/
def shortDocument : Document :=
  servingDocument [servingPath "/menu" "model.Menu"]

/-- The menu behind another group. -/
def longDocument : Document :=
  servingDocument [servingPath "/dinner" "ModelMenu", servingPath "/menu" "model.Menu"]

/-- With another group in front of it a group has the same endpoints, and the type that its
endpoint requires has another name. -/
theorem groups_independent_menu :
    undefinedReferenceLint.check shortDocument = [] ∧
    (shortDocument.routes.filter fun r => UrlTemplate.group r.url == "menu") =
      (longDocument.routes.filter fun r => UrlTemplate.group r.url == "menu") ∧
    (∃ ρ : String → String, Function.Injective ρ ∧
      longDocument.api.endpointsIn "menu" =
        (shortDocument.api.endpointsIn "menu").map (Endpoint.rename ρ) ∧
      ∀ e ∈ shortDocument.api.endpointsIn "menu", ∀ name ∈ e.requires,
        ∃ n, shortDocument.api.namedType? name = some n ∧
          longDocument.api.namedType? (ρ name) = some (n.rename ρ)) ∧
    (shortDocument.api.endpointsIn "menu").map (·.requires) = [["ModelMenu"]] ∧
    (longDocument.api.endpointsIn "menu").map (·.requires) = [["ModelMenu2"]] := by
  have hlint : undefinedReferenceLint.check shortDocument = [] := by decide +kernel
  have hroutes : (shortDocument.routes.filter fun r => UrlTemplate.group r.url == "menu") =
      longDocument.routes.filter fun r => UrlTemplate.group r.url == "menu" := rfl
  exact ⟨hlint, hroutes,
    groups_independent shortDocument longDocument (fun _ => rfl) hlint "menu" hroutes,
    by decide +kernel, by decide +kernel⟩

end SwaggerClient.Document
