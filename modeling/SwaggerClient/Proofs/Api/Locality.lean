import SwaggerClient.Proofs.Api.Consulted
import SwaggerClient.Proofs.Api.Meaning

/-!
# Definitions that are not referred to

The interface of a document is made of the definitions that the schemas of its operations refer
to, by themselves or through other definitions.  What the document has under other names decides
on nothing, and neither does the order in which it lists its definitions: the same names are
looked up in both, in the same order, so that the same definitions are declared under the same
type names.
-/

namespace SwaggerClient.Document

variable {d d' : Document} {route : Route} {name definition : String}

/-! ## Names that are referred to -/

/-- Whether a name is reached from the schemas of the bodies and responses by following references:
one of these schemas mentions it, or the definition of a name that is reached does. -/
inductive RefersTo (d : Document) : String → Prop
  | schema {route : Route} {node : SchemaNode} {name : String} (hr : route ∈ d.routes)
      (hn : node ∈ route.given) (h : node.Mentions name) : RefersTo d name
  | definition {definition name : String} {node : SchemaNode} (hd : RefersTo d definition)
      (hn : d.definitions.get? definition = some node) (h : node.Mentions name) : RefersTo d name

/-- Whether a name is looked up when a document is lowered. -/
def LooksUp (d : Document) (name : String) : Prop :=
  ∃ route ∈ d.routes, route.Consults d.definitions name

/-- A name that is looked up is referred to. -/
theorem LooksUp.refersTo (h : d.LooksUp name) : d.RefersTo name := by
  obtain ⟨route, hr, hc⟩ := h
  induction hc with
  | schema hn h => exact .schema hr hn ((SchemaNode.mem_refNames_iff _).1 h.mem_refNames)
  | definition _ hn h ih =>
    exact .definition ih hn ((SchemaNode.mem_refNames_iff _).1 h.mem_refNames)

theorem closed_looksUp (d : Document) : d.definitions.Closed d.LooksUp :=
  fun _ _ ⟨route, hr, hc⟩ hn _ h => ⟨route, hr, .definition hc hn h⟩

/-! ## Two documents -/

/-- Whether two documents have the same paths, and the second has for every name that is looked up
in the first what the first has. -/
structure Matches (d d' : Document) : Prop where
  paths : d.paths = d'.paths
  same : ∀ name, d.LooksUp name → d.definitions.get? name = d'.definitions.get? name

namespace Matches

theorem routes_eq (h : Matches d d') : d.routes = d'.routes := by
  rw [routes, routes, h.paths]

theorem expandNode_eq (h : Matches d d') (hr : route ∈ d.routes) {node : SchemaNode}
    (hn : node ∈ route.given) :
    d.definitions.expandNode [] node = d'.definitions.expandNode [] node :=
  Definitions.expandNode_congr (closed_looksUp d) h.same
    (fun _ href => ⟨route, hr, .schema hn href⟩) (.nil _) (.nil _)

theorem targets_eq (h : Matches d d') (hr : route ∈ d.routes) :
    route.targets d.definitions = route.targets d'.definitions := by
  rw [Route.targets_eq, Route.targets_eq]
  exact List.flatMap_congr fun node hn => by rw [h.expandNode_eq hr hn]

/-- A declared definition has the same expansion in both documents. -/
theorem expandDefinition_eq (h : Matches d d') (hd : definition ∈ d.declarations.map Prod.fst) :
    d.definitions.expandDefinition definition = d'.definitions.expandDefinition definition :=
  Definitions.expandDefinition_congr (closed_looksUp d) h.same (exists_consults_of_declared hd)

/-- The same definitions are declared, in the same order and under the same type names. -/
theorem declarations_eq (h : Matches d d') : d.declarations = d'.declarations := by
  have htargets : d.routes.flatMap (Route.targets d.definitions) =
      d'.routes.flatMap (Route.targets d'.definitions) := by
    rw [← h.routes_eq]
    exact List.flatMap_congr fun route hr => h.targets_eq hr
  have hdeclares := d.api_spec.2.2.congr fun _ => h.expandDefinition_eq
  rw [htargets] at hdeclares
  exact hdeclares.unique d'.api_spec.2.2

theorem named_eq (h : Matches d d') : d.api.named = d'.api.named := by
  rw [api_named, api_named, ← h.declarations_eq]
  refine List.map_congr_left fun entry he => ?_
  rw [Definitions.namedType, Definitions.namedType,
    h.expandDefinition_eq (List.mem_map_of_mem he)]

/-- A schema of an operation has the same type in both documents. -/
theorem givenType_eq (h : Matches d d') (hr : route ∈ d.routes) {schema : Option SchemaNode}
    (hs : schema.toList ⊆ route.given) :
    d.definitions.givenType d.declarations.nameOf schema =
      d'.definitions.givenType d'.declarations.nameOf schema := by
  rw [Definitions.givenType, Definitions.givenType, ← h.declarations_eq]
  refine Option.map_congr fun node hn => ?_
  rw [h.expandNode_eq hr (hs (Option.mem_toList.2 hn))]

theorem endpointOf_eq (h : Matches d d') (hr : route ∈ d.routes) :
    d.endpointOf route = d'.endpointOf route := by
  have hbody := h.givenType_eq hr (List.subset_append_left _ _)
  have hresponse := h.givenType_eq hr (List.subset_append_right _ _)
  simp only [endpointOf, Route.expandedEndpoint, hbody, hresponse, h.named_eq]

/-- The documents have the same interface. -/
theorem api_eq (h : Matches d d') : d.api = d'.api := by
  have hendpoints : d.api.endpoints = d'.api.endpoints := by
    rw [api_endpoints_eq_map, api_endpoints_eq_map, ← h.routes_eq]
    exact List.map_congr_left fun route hr => h.endpointOf_eq hr
  calc d.api = ⟨d.api.endpoints, d.api.named⟩ := rfl
    _ = ⟨d'.api.endpoints, d'.api.named⟩ := by rw [hendpoints, h.named_eq]
    _ = d'.api := rfl

end Matches

/-- The interface of a document depends on its paths and on what it has under the names that the
schemas of its operations refer to, in any number of steps.  So the interface stays when definitions
are put in another order, and when definitions that nothing refers to are added or left out. -/
theorem api_eq_of_refersTo (d d' : Document) (hpaths : d.paths = d'.paths) :
    ((∀ name, d.RefersTo name → d.definitions.get? name = d'.definitions.get? name) →
      d.api = d'.api) ∧
    ∀ unused : Definitions, (∀ name ∈ unused.keys, ¬ d.RefersTo name) →
      d'.definitions.Perm (d.definitions ++ unused) → d'.definitions.keys.Nodup →
      d.api = d'.api := by
  have hmain : (∀ name, d.RefersTo name → d.definitions.get? name = d'.definitions.get? name) →
      d.api = d'.api := fun hsame =>
    Matches.api_eq ⟨hpaths, fun name hname => hsame name hname.refersTo⟩
  refine ⟨hmain, fun unused hunused hperm hkeys => hmain fun name hname => ?_⟩
  have hother : name ∉ unused.keys := fun hmem => hunused name hmem hname
  exact (Dictionary.get?_of_perm_append hperm hkeys hother).symm

/-- A document whose only operation answers with a page. -/
def pageDocument (definitions : Definitions) : Document where
  paths := [("/page", [(.get, { responses := [("200", { schema := some (referenceTo "Page") })] })])]
  definitions

/-- A definition with one property, which refers to a definition. -/
def holding (name property target : String) : String × SchemaNode :=
  (name, { properties := some [(property, referenceTo target)] })

/-- A page that holds menus, which hold each other. -/
def pageDefinitions : Definitions :=
  [holding "Page" "menu" "MenuList", holding "MenuList" "next" "MenuList"]

theorem mem_of_refersTo_page (h : (pageDocument pageDefinitions).RefersTo name) :
    name ∈ ["Page", "MenuList"] := by
  cases h with
  | schema hr hn h =>
    obtain rfl := List.mem_singleton.1 hr
    obtain rfl := List.mem_singleton.1 hn
    have hsub : (referenceTo "Page").refNames ⊆ ["Page", "MenuList"] := by decide
    exact hsub ((SchemaNode.mem_refNames_iff _).2 h)
  | definition _ hn h =>
    have hsub : ∀ entry ∈ pageDefinitions, entry.2.refNames ⊆ ["Page", "MenuList"] := by decide
    exact hsub _ (Dictionary.mem_of_get? hn) ((SchemaNode.mem_refNames_iff _).2 h)

/-- Other menus whose name makes the same identifier come first among the definitions, and do not
take the type name of the menus that the page refers to. -/
theorem api_eq_of_refersTo_page :
    ¬ (pageDocument pageDefinitions).RefersTo "menu-list" ∧
      (pageDocument pageDefinitions).api =
        (pageDocument (pageDefinitions ++ [holding "menu-list" "next" "menu-list"]).reverse).api ∧
      (pageDocument pageDefinitions).api.named.map (·.name) = ["MenuList"] := by
  have hother : ¬ (pageDocument pageDefinitions).RefersTo "menu-list" := fun h =>
    absurd (mem_of_refersTo_page h) (by decide)
  have hunused : ∀ name ∈ Dictionary.keys [holding "menu-list" "next" "menu-list"],
      ¬ (pageDocument pageDefinitions).RefersTo name := by
    intro name hname
    obtain rfl := List.mem_singleton.1 hname
    exact hother
  have hapi := (api_eq_of_refersTo (pageDocument pageDefinitions) (pageDocument
    (pageDefinitions ++ [holding "menu-list" "next" "menu-list"]).reverse) rfl).2
    _ hunused (List.reverse_perm _) (by decide)
  exact ⟨hother, hapi, by decide +kernel⟩

end SwaggerClient.Document
