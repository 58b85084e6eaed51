import SwaggerClient.Compilation
import SwaggerClient.Proofs.Api.Groups
import SwaggerClient.Proofs.Api.Names
import SwaggerClient.Proofs.Client.SelfContained
import SwaggerClient.Proofs.Lint.DuplicateFunction

/-!
# The type names of a module

A module exports aliases for named types and for the types of its endpoints.  Named types
have different names, and so have the types of endpoints with different functions.  What
remains is that a named type has the name of a type of an endpoint.
-/

namespace SwaggerClient

namespace Endpoint

/-- The names of the types that belong to an endpoint. -/
def typeNames (e : Endpoint) : List String :=
  e.declarations.map (·.name)

end Endpoint

namespace Api

variable (api : Api) (group : String)

/-- The named types that the module of a group declares. -/
def declaredIn : List NamedType :=
  (api.moduleParts group).flatMap (·.named)

/-- The names of the type aliases that the module of a group exports, in their order. -/
def aliasNames : List String :=
  (api.moduleParts group).flatMap fun part => part.declarations.map (·.alias.name)

/-- Up to their order the exported names are those of named types and those of the types of
endpoints. -/
theorem aliasNames_perm :
    (api.aliasNames group).Perm
      ((api.declaredIn group).map (·.name) ++ (api.endpointsIn group).flatMap (·.typeNames)) := by
  have hendpoints : (api.endpointsIn group).flatMap (·.typeNames) =
      (api.moduleParts group).flatMap (·.endpoint.typeNames) := by
    rw [← endpoints_parts api [] (api.endpointsIn group), List.flatMap_map]
    rfl
  have hparts : api.aliasNames group = (api.moduleParts group).flatMap fun part =>
      part.named.map (·.name) ++ part.endpoint.typeNames := by
    simp only [aliasNames, ModulePart.declarations, List.map_append, List.map_map]
    rfl
  rw [hendpoints, hparts, declaredIn, List.map_flatMap]
  exact (List.flatMap_append_perm _ _ _).symm

/-- No name is exported twice exactly when no two types of endpoints have the same name, and
none has the name of a named type. -/
theorem nodup_aliasNames_iff :
    (api.aliasNames group).Nodup ↔
      ((api.endpointsIn group).flatMap (·.typeNames)).Nodup ∧
        ∀ n ∈ api.declaredIn group, ∀ e ∈ api.endpointsIn group, n.name ∉ e.typeNames := by
  have hnamed : ((api.declaredIn group).map (·.name)).Nodup := nodup_parts _ _ _
  rw [(api.aliasNames_perm group).nodup_iff, List.nodup_append']
  simp only [hnamed, true_and]
  refine and_congr_right fun _ => ?_
  simp only [List.Disjoint, List.mem_map, List.mem_flatMap]
  constructor
  · intro h n hn e he hname
    exact h ⟨n, hn, rfl⟩ ⟨e, he, hname⟩
  · rintro h _ ⟨n, hn, rfl⟩ ⟨e, he, hname⟩
    exact h n hn e he hname

end Api

/-! ## Types of endpoints -/

namespace Document

variable {d : Document}

/-- When no function is reported, the types of the endpoints of a group have different
names. -/
theorem nodup_typeNames (hlint : duplicateFunctionLint.check d = []) (group : String) :
    ((d.api.endpointsIn group).flatMap (·.typeNames)).Nodup := by
  have hnames : ∀ r, (d.endpointOf r).names = .of r.method r.url := fun _ => rfl
  have hkeys : d.routes.Pairwise fun r s => r.functionKey ≠ s.functionKey :=
    List.pairwise_map.1 (duplicateFunctionLint_eq_nil_iff.1 hlint)
  rw [endpointsIn_eq, List.flatMap_map, List.nodup_flatMap]
  refine ⟨fun r _ => Endpoint.nodup_names_declarations (hnames r), ?_⟩
  refine List.Pairwise.imp_of_mem ?_ (hkeys.filter _)
  intro r s hr hs hkey name hname hname'
  -- A name that both have says that verb and identifier are the same, and so is the group.
  obtain ⟨suffix, hsuffix, rfl⟩ := Endpoint.exists_typeSuffix (hnames r) hname
  obtain ⟨suffix', hsuffix', heq⟩ := Endpoint.exists_typeSuffix (hnames s) hname'
  obtain ⟨hmethod, hidentifier, -⟩ := typeName_inj hsuffix' hsuffix heq
  have hgroup : UrlTemplate.group r.url = UrlTemplate.group s.url := by
    simp only [List.mem_filter, beq_iff_eq] at hr hs
    rw [hr.2, hs.2]
  apply hkey
  simp [Route.functionKey, EndpointNames.of, hgroup, hmethod, hidentifier]

/-- When the lints report nothing, the module of a group exports every name once exactly when
no named type that it declares has the name of a type of an endpoint of the group. -/
theorem nodup_aliasNames_iff_of_lints (d : Document)
    (hlint : ∀ lint ∈ defaultLints, lint.check d = []) (group : String) :
    (d.api.aliasNames group).Nodup ↔
      ∀ n ∈ d.api.declaredIn group, ∀ e ∈ d.api.endpointsIn group, n.name ∉ e.typeNames := by
  have hfunctions : duplicateFunctionLint.check d = [] :=
    hlint duplicateFunctionLint (by simp [defaultLints])
  rw [Api.nodup_aliasNames_iff]
  exact and_iff_right (nodup_typeNames hfunctions group)

/-- A document with two operations of one group, whose types refer to definitions that
contain themselves. -/
def forestDocument : Document where
  paths := [("/tree/\x7bid\x7d",
    [(.get, { responses := [("200", { schema := some (referenceTo "tree.Node") })] }),
     (.put, {
       parameters := [⟨"tree", .body, none, true, some (referenceTo "GetTreeRes")⟩] })])]
  definitions := [
    ("tree.Node", { properties := some [("left", referenceTo "tree.Node")] }),
    ("GetTreeRes", { properties := some [("root", referenceTo "GetTreeRes")] })]

theorem nodup_aliasNames_iff_of_lints_forest :
    (∀ lint ∈ defaultLints, lint.check forestDocument = []) ∧
    ((forestDocument.api.aliasNames "tree").Nodup ↔
      ∀ n ∈ forestDocument.api.declaredIn "tree",
        ∀ e ∈ forestDocument.api.endpointsIn "tree", n.name ∉ e.typeNames) ∧
    forestDocument.api.aliasNames "tree" =
      ["TreeNode", "GetTreeByIdPath", "GetTreeByIdRes", "GetTreeRes", "PutTreeByIdPath",
       "PutTreeByIdBody", "PutTreeByIdRes"] := by
  have hlint : ∀ lint ∈ defaultLints, lint.check forestDocument = [] := by
    simp only [defaultLints, List.forall_mem_cons]
    decide +kernel
  exact ⟨hlint, nodup_aliasNames_iff_of_lints forestDocument hlint "tree", by decide +kernel⟩

/-- A document whose only definition contains itself and has the name of the type that is
declared for its response. -/
def menuDocument : Document where
  paths := [("/menu",
    [(.get, { responses := [("200", { schema := some (referenceTo "GetMenuRes") })] })])]
  definitions := [("GetMenuRes", {
    properties := some [("children", {
      type := some (.single .array), items := some (referenceTo "GetMenuRes") })] })]

/-- A module may declare one name twice though no lint reports anything. -/
theorem menuDocument_aliasNames_not_nodup :
    (∀ lint ∈ defaultLints, lint.check menuDocument = []) ∧
      menuDocument.api.aliasNames "menu" = ["GetMenuRes", "GetMenuRes"] ∧
      ¬ (menuDocument.api.aliasNames "menu").Nodup := by
  have hlint : ∀ lint ∈ defaultLints, lint.check menuDocument = [] := by
    simp only [defaultLints, List.forall_mem_cons]
    decide +kernel
  have hnames : menuDocument.api.aliasNames "menu" = ["GetMenuRes", "GetMenuRes"] := by
    decide +kernel
  exact ⟨hlint, hnames, by simp [hnames]⟩

end Document

end SwaggerClient
