import Mathlib.Algebra.GroupWithZero.Nat
import SwaggerClient.Proofs.Api.Groups
import SwaggerClient.Proofs.Client.SelfContained
import SwaggerClient.Proofs.Dictionary
import SwaggerClient.Proofs.Report.Agreement
import SwaggerClient.Report.Listing

/-!
# Groups in sources, listings and reports

The source of a client, the listing of a document and the report of a generation each go
through the groups by themselves.  All of them show the same groups in the same order, with the
same endpoints in each.
-/

namespace SwaggerClient

namespace Api

variable (api : Api)

theorem keys_groupSources (style : ErrorStyle) :
    Dictionary.keys (api.groupSources style) = api.groups := by
  rw [Dictionary.keys, groupSources, List.map_map]
  exact List.map_id _

/-- No source takes the place of another one when they are put into a dictionary. -/
theorem ofList_groupSources (style : ErrorStyle) :
    Dictionary.ofList (api.groupSources style) = api.groupSources style :=
  Dictionary.ofList_eq_self (api.keys_groupSources style ▸ api.nodup_groups)

theorem get?_groupSources (style : ErrorStyle) {group : String} (hg : group ∈ api.groups) :
    Dictionary.get? (api.groupSources style) group = some (api.groupSource style group) :=
  List.lookup_graph _ hg

theorem sum_groupSizes : (api.groupSizes.map Prod.snd).sum = api.endpoints.length := by
  have hsizes : api.groupSizes.map Prod.snd = api.groups.map fun g => (api.endpointsIn g).length :=
    List.map_map
  rw [hsizes, ← List.length_flatMap]
  exact api.flatMap_endpointsIn_perm.length_eq

end Api

/-- An operation as it is listed. -/
def Route.listed (route : Route) : ListedEndpoint :=
  ⟨route.method.name.toUpper, route.url, (EndpointNames.of route.method route.url).function⟩

namespace Document

variable {d : Document}

/-- What is listed of a group are the operations whose URL is in it. -/
theorem endpoints_of_mem_listing {listing : GroupListing} (h : listing ∈ d.listing) :
    listing.endpoints =
      (d.routes.filter fun r => UrlTemplate.group r.url == listing.name).map Route.listed := by
  obtain ⟨group, -, rfl⟩ := List.mem_map.1 h
  rw [endpointsIn_eq, List.map_map]
  rfl

/-- A generation that need not be strict and only shows the files gives a report.  Whenever there
is one it is that of the document. -/
theorem generate_cases (d : Document) (path : String) (settings : Settings) (dryRun : Bool)
    (t : FileTree) :
    (∃ result, (d.generate path settings dryRun t).2 = .ok (d.generation path result)) ∨
      (∃ error, (d.generate path settings dryRun t).2 = .error error) ∧
        (settings.strict = true ∨ dryRun = false) := by
  rw [generate_eq]
  split
  next hfails => exact .inr ⟨⟨_, rfl⟩, .inl hfails.1⟩
  next =>
    split
    next => exact .inl ⟨_, rfl⟩
    next hwrite =>
      split
      next => exact .inr ⟨⟨_, rfl⟩, .inr (Bool.eq_false_of_not_eq_true hwrite)⟩
      next => exact .inl ⟨_, rfl⟩

/-- Grouping the endpoints of an interface loses, repeats and reorders nothing.  Every group of
an endpoint is found once, in the order of the first endpoints; the endpoints of the groups are
together those of the interface, and within a group they keep their order.  The source has these
groups in this order, none in the place of another one, with one part for each endpoint of the
group.  A listing shows the same groups and endpoints.  The counts in the report of a generation
are the sizes of these groups and add up to the number of operations, and there is a report
unless strictness or a file that cannot be written stands in the way. -/
theorem groups_agree :
    (∀ api : Api,
      (∀ group, group ∈ api.groups ↔ ∃ e ∈ api.endpoints, e.group = group) ∧
      api.groups.Nodup ∧
      api.groups.Pairwise (fun g g' => api.firstOf g < api.firstOf g') ∧
      (api.groups.flatMap api.endpointsIn).Perm api.endpoints ∧
      (∀ group, (api.endpointsIn group).Sublist api.endpoints ∧
        ∀ e ∈ api.endpointsIn group, e.group = group) ∧
      ∀ style,
        Dictionary.keys (api.groupSources style) = api.groups ∧
        Dictionary.ofList (api.groupSources style) = api.groupSources style ∧
        ∀ group ∈ api.groups, ∃ parts : List ModulePart,
          parts.map (·.endpoint) = api.endpointsIn group ∧
          Dictionary.get? (api.groupSources style) group =
            some (parts.map fun part => Code.render (part.fragments style))) ∧
    ∀ d : Document,
      (d.listing.map fun listing => (listing.name, listing.endpoints)) =
        (d.api.groups.map fun g => (g, (d.api.endpointsIn g).map Endpoint.listed)) ∧
      (∀ listing ∈ d.listing, listing.endpoints =
        (d.routes.filter fun r => UrlTemplate.group r.url == listing.name).map Route.listed) ∧
      ∀ path settings dryRun t,
        match (d.generate path settings dryRun t).2 with
        | .ok report =>
          report.groups = (d.api.groups.map fun g => (g, (d.api.endpointsIn g).length)) ∧
          (report.groups.map Prod.snd).sum = report.endpointCount ∧
          report.endpointCount = d.operationCount
        | .error _ => settings.strict = true ∨ dryRun = false := by
  refine ⟨fun api => ⟨fun _ => Api.mem_groups_iff, api.nodup_groups, api.pairwise_groups,
    api.flatMap_endpointsIn_perm, fun group => ?_, fun style => ?_⟩, fun d => ⟨?_, ?_, ?_⟩⟩
  · exact ⟨List.filter_sublist, fun e he => (Api.mem_endpointsIn_iff.1 he).2⟩
  · refine ⟨api.keys_groupSources style, api.ofList_groupSources style, fun group hg => ?_⟩
    exact ⟨api.moduleParts group, Api.endpoints_parts api [] _, api.get?_groupSources style hg⟩
  · rw [listing, List.map_map]
    rfl
  · exact fun listing => endpoints_of_mem_listing
  · intro path settings dryRun t
    rcases d.generate_cases path settings dryRun t with ⟨result, h⟩ | ⟨⟨error, h⟩, hwhy⟩
    · rw [h]
      exact ⟨rfl, d.api.sum_groupSizes, d.length_endpoints⟩
    · rw [h]
      exact hwhy

end Document

end SwaggerClient
