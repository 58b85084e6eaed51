import Mathlib.Data.List.Induction
import Mathlib.Data.List.Nodup
import SwaggerClient.Proofs.Api.Meaning
import SwaggerClient.Proofs.Dictionary

/-!
# The groups of an interface

The groups are found by one pass over the endpoints, and the endpoints of each by another.  No
endpoint is lost that way, none comes twice, and neither the groups nor the endpoints of a group
change their order.
-/

namespace SwaggerClient

section Keys

variable {κ α : Type} [BEq κ] [LawfulBEq κ] {keys : List κ}

/-- Without repetitions the elements are in the order in which they first come. -/
theorem pairwise_idxOf_eraseDups (keys : List κ) :
    keys.eraseDups.Pairwise fun a b => keys.idxOf a < keys.idxOf b := by
  induction keys using List.reverseRecOn with
  | nil => exact List.Pairwise.nil
  | append_singleton keys key ih =>
    have hold : ∀ a ∈ keys.eraseDups, (keys ++ [key]).idxOf a = keys.idxOf a := fun a ha =>
      List.idxOf_append_of_mem (List.mem_eraseDups.1 ha)
    have hpairs : keys.eraseDups.Pairwise fun a b =>
        (keys ++ [key]).idxOf a < (keys ++ [key]).idxOf b := by
      refine ih.imp_of_mem fun {a b} ha hb h => ?_
      rwa [hold a ha, hold b hb]
    rw [eraseDups_concat]
    split
    next => exact hpairs
    next hnew =>
      refine List.pairwise_append.2 ⟨hpairs, List.pairwise_singleton _ _, fun a ha b hb => ?_⟩
      rw [List.mem_singleton.1 hb, hold a ha, List.idxOf_append_of_notMem hnew]
      exact Nat.lt_add_right _ (List.idxOf_lt_length_of_mem (List.mem_eraseDups.1 ha))

/-- Elements taken key by key are all the elements, when every key is taken once. -/
theorem flatMap_filter_perm (key : α → κ) (hd : keys.Nodup) {elements : List α}
    (hkeys : ∀ a ∈ elements, key a ∈ keys) :
    (keys.flatMap fun k => elements.filter (key · == k)).Perm elements := by
  induction keys generalizing elements with
  | nil =>
    have hnone : elements = [] :=
      List.eq_nil_iff_forall_not_mem.2 fun a ha => List.not_mem_nil (hkeys a ha)
    simp [hnone]
  | cons k keys ih =>
    obtain ⟨hk, hd⟩ := List.nodup_cons.1 hd
    -- The elements of the other keys are those of them that do not have the first one.
    have hothers : (keys.flatMap fun k => elements.filter (key · == k)) =
        keys.flatMap fun k' => (elements.filter fun a => !(key a == k)).filter (key · == k') := by
      refine List.flatMap_congr fun k' hk' => ?_
      rw [List.filter_filter]
      refine List.filter_congr fun a _ => ?_
      by_cases h : key a = k'
      · have hne : k' ≠ k := fun heq => hk (heq ▸ hk')
        simp [h, hne]
      · simp [h]
    rw [List.flatMap_cons, hothers]
    refine ((ih hd fun a ha => ?_).append_left _).trans (List.filter_append_perm _ _)
    obtain ⟨ha, hother⟩ := List.mem_filter.1 ha
    exact (List.mem_cons.1 (hkeys a ha)).resolve_left (by simpa using hother)

end Keys

namespace Api

variable (api : Api)

/-- The position of the first endpoint of a group. -/
def firstOf (group : String) : Nat :=
  api.endpoints.findIdx (·.group == group)

variable {api} {group : String} {e : Endpoint}

theorem mem_groups_iff : group ∈ api.groups ↔ ∃ e ∈ api.endpoints, e.group = group := by
  rw [groups, List.mem_eraseDups, List.mem_map]

theorem mem_endpointsIn_iff : e ∈ api.endpointsIn group ↔ e ∈ api.endpoints ∧ e.group = group := by
  rw [endpointsIn, List.mem_filter, beq_iff_eq]

variable (api)

theorem nodup_groups : api.groups.Nodup :=
  nodup_eraseDups _

/-- The groups are in the order in which the endpoints first meet them. -/
theorem pairwise_groups : api.groups.Pairwise fun g g' => api.firstOf g < api.firstOf g' := by
  have hfirst : ∀ g, api.firstOf g = (api.endpoints.map (·.group)).idxOf g := fun g => by
    rw [List.idxOf, List.findIdx_map]
    rfl
  simp only [hfirst]
  exact pairwise_idxOf_eraseDups _

/-- Group by group the endpoints are those of the interface. -/
theorem flatMap_endpointsIn_perm : (api.groups.flatMap api.endpointsIn).Perm api.endpoints :=
  flatMap_filter_perm _ api.nodup_groups fun e he => mem_groups_iff.2 ⟨e, he, rfl⟩

end Api

/-! ## The groups of a document -/

namespace Document

variable (d : Document)

/-- The endpoints of a group are made of the operations whose URL is in the group. -/
theorem endpointsIn_eq (group : String) :
    d.api.endpointsIn group =
      (d.routes.filter fun r => UrlTemplate.group r.url == group).map d.endpointOf := by
  rw [Api.endpointsIn, api_endpoints_eq_map, List.filter_map]
  rfl

theorem length_routes : d.routes.length = d.operationCount := by
  rw [routes, operationCount]
  induction d.paths with
  | nil => rfl
  | cons entry paths ih =>
    rw [List.flatMap_cons, List.length_append, List.length_map, ih]
    rfl

theorem length_endpoints : d.api.endpoints.length = d.operationCount := by
  rw [api_endpoints_eq_map, List.length_map, length_routes]

end Document

end SwaggerClient
