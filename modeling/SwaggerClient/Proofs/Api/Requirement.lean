import Mathlib.Data.List.Perm.Subperm
import SwaggerClient.Api.OfDocument
import SwaggerClient.Proofs.Api.Named

/-!
# The named types that an endpoint needs

A type needs the named types that it refers to, and those that their types need.  The
search for them finds each once and ends with its steps to spare.
-/

namespace SwaggerClient

/-- Whether a type refers to a named type, by itself or through other named types. -/
inductive Reaches (named : List NamedType) : TypeExpr String → String → Prop
  | reference {type : TypeExpr String} {name : String} {n : NamedType}
      (h : name ∈ type.references) (hn : findNamed named name = some n) : Reaches named type name
  | through {type : TypeExpr String} {name last : String} {n : NamedType}
      (h : name ∈ type.references) (hn : findNamed named name = some n)
      (hr : Reaches named n.type last) : Reaches named type last

/-- Whether the body or the response of an endpoint reaches a named type. -/
def Endpoint.Needs (e : Endpoint) (named : List NamedType) (name : String) : Prop :=
  ∃ type ∈ e.body.toList ++ e.response.toList, Reaches named type name

variable {named : List NamedType} {type : TypeExpr String} {name last : String} {n : NamedType}

theorem Reaches.trans (h : Reaches named type name) (hn : findNamed named name = some n)
    (hr : Reaches named n.type last) : Reaches named type last := by
  induction h with
  | reference hname hn' =>
    obtain rfl : _ = n := Option.some.inj (hn'.symm.trans hn)
    exact .through hname hn' hr
  | through hname hn' _ ih => exact .through hname hn' (ih hn)

theorem Reaches.exists_findNamed (h : Reaches named type name) :
    ∃ n, findNamed named name = some n := by
  induction h with
  | reference _ hn => exact ⟨_, hn⟩
  | through _ _ _ ih => exact ih

/-! ## The search -/

/-- A type that a search has come to: one to begin with, or that of a name found. -/
def Met (named : List NamedType) (roots : List (TypeExpr String)) (found : List String)
    (type : TypeExpr String) : Prop :=
  type ∈ roots ∨ ∃ name ∈ found, ∃ n, findNamed named name = some n ∧ type = n.type

/-- What holds in the course of a search: names are found once and are reachable, the
types that are left have been met, and what the others refer to is found. -/
structure Search (named : List NamedType) (roots pending : List (TypeExpr String))
    (found : List String) : Prop where
  nodup : found.Nodup
  reachable : ∀ name ∈ found, ∃ type ∈ roots, Reaches named type name
  met : ∀ type ∈ pending, Met named roots found type
  closed : ∀ type, Met named roots found type → type ∈ pending ∨
    ∀ name ∈ type.references, ∀ n, findNamed named name = some n → name ∈ found

namespace Search

variable {roots pending : List (TypeExpr String)} {found : List String}

theorem start (named : List NamedType) (roots : List (TypeExpr String)) :
    Search named roots roots [] where
  nodup := List.nodup_nil
  reachable := by simp
  met type h := .inl h
  closed type h := .inl (by simpa [Met] using h)

/-- With names newly found, the types met are those met before and those of the names. -/
theorem met_newlyFound_iff {names : List String} {t : TypeExpr String} :
    Met named roots (found ++ (newlyFound named found names).map (·.name)) t ↔
      Met named roots found t ∨ t ∈ (newlyFound named found names).map (·.type) := by
  constructor
  · rintro (hroot | ⟨name, hf, n, hn, rfl⟩)
    · exact .inl (.inl hroot)
    · rcases List.mem_append.1 hf with hf | hnew
      · exact .inl (.inr ⟨name, hf, n, hn, rfl⟩)
      · obtain ⟨m, hm, rfl⟩ := List.mem_map.1 hnew
        obtain rfl : n = m := Option.some.inj (hn.symm.trans (mem_newlyFound_iff.1 hm).1)
        exact .inr (List.mem_map_of_mem hm)
  · rintro ((hroot | ⟨name, hf, n, hn, rfl⟩) | hnew)
    · exact .inl hroot
    · exact .inr ⟨name, List.mem_append_left _ hf, n, hn, rfl⟩
    · obtain ⟨n, hn, rfl⟩ := List.mem_map.1 hnew
      have hname := List.mem_map_of_mem (f := (·.name)) hn
      exact .inr ⟨n.name, List.mem_append_right _ hname, n, (mem_newlyFound_iff.1 hn).1, rfl⟩

/-- What a type that is left refers to can be reached. -/
theorem exists_reaches (h : Search named roots (type :: pending) found) {n : NamedType}
    (hn : findNamed named n.name = some n) (href : n.name ∈ type.references) :
    ∃ root ∈ roots, Reaches named root n.name := by
  rcases h.met type List.mem_cons_self with hroot | ⟨before, hf, m, hm, rfl⟩
  · exact ⟨type, hroot, .reference href hn⟩
  · obtain ⟨root, hroot, hr⟩ := h.reachable before hf
    exact ⟨root, hroot, hr.trans hm (.reference href hn)⟩

/-- Looks at one type that is left. -/
theorem step (h : Search named roots (type :: pending) found) :
    Search named roots
      (((newlyFound named found type.references).map (·.type)).reverse ++ pending)
      (found ++ (newlyFound named found type.references).map (·.name)) := by
  constructor
  · refine h.nodup.append (nodup_newlyFound _ _ _) fun name hf hnew => ?_
    obtain ⟨n, hn, rfl⟩ := List.mem_map.1 hnew
    exact (mem_newlyFound_iff.1 hn).2.2 hf
  · intro name hname
    rcases List.mem_append.1 hname with hf | hnew
    · exact h.reachable name hf
    · obtain ⟨n, hn, rfl⟩ := List.mem_map.1 hnew
      obtain ⟨hfind, href, -⟩ := mem_newlyFound_iff.1 hn
      exact h.exists_reaches hfind href
  · intro t ht
    rw [met_newlyFound_iff]
    rcases List.mem_append.1 ht with hnew | hp
    · exact .inr (List.mem_reverse.1 hnew)
    · exact .inl (h.met t (List.mem_cons_of_mem _ hp))
  · intro t ht
    rcases met_newlyFound_iff.1 ht with hmet | hnew
    · rcases h.closed t hmet with hp | hclosed
      · rcases List.mem_cons.1 hp with rfl | hp
        · refine .inr fun name href n hn => ?_
          by_cases hf : name ∈ found
          · exact List.mem_append_left _ hf
          · obtain rfl := name_of_findNamed hn
            exact List.mem_append_right _
              (List.mem_map_of_mem (mem_newlyFound_iff.2 ⟨hn, href, hf⟩))
        · exact .inl (List.mem_append_right _ hp)
      · exact .inr fun name href n hn => List.mem_append_left _ (hclosed name href n hn)
    · exact .inl (List.mem_append_left _ (List.mem_reverse.2 hnew))

/-- Not more names are found than there are named types. -/
theorem length_le (h : Search named roots pending found) : found.length ≤ named.length := by
  have hsub : found ⊆ named.map (·.name) := by
    intro name hname
    obtain ⟨type, -, hr⟩ := h.reachable name hname
    obtain ⟨n, hn⟩ := hr.exists_findNamed
    exact List.mem_map.2 ⟨n, mem_of_findNamed hn, name_of_findNamed hn⟩
  have hle := (List.subperm_of_subset h.nodup hsub).length_le
  rwa [List.length_map] at hle

/-- With no steps left that are enough no type is left. -/
theorem eq_nil_of_le (h : Search named roots pending found)
    (hsteps : pending.length + named.length ≤ found.length) : pending = [] := by
  have := h.length_le
  exact List.eq_nil_of_length_eq_zero (by omega)

/-- Steps that are enough are so after one of them has been taken. -/
theorem length_next_le {steps : Nat}
    (hsteps : (type :: pending).length + named.length ≤ steps + 1 + found.length) :
    (((newlyFound named found type.references).map (·.type)).reverse ++ pending).length
        + named.length ≤
      steps + (found ++ (newlyFound named found type.references).map (·.name)).length := by
  simp only [List.length_append, List.length_reverse, List.length_map, List.length_cons]
    at hsteps ⊢
  omega

/-- With no type left all that is reachable is found. -/
theorem mem_iff (h : Search named roots [] found) :
    name ∈ found ↔ ∃ type ∈ roots, Reaches named type name := by
  refine ⟨h.reachable name, ?_⟩
  rintro ⟨type, ht, hr⟩
  have hmet : Met named roots found type := .inl ht
  clear ht
  induction hr with
  | @reference type name n hname hn =>
    exact (h.closed type hmet).resolve_left (by simp) name hname n hn
  | @through type name last n hname hn _ ih =>
    have hfound := (h.closed type hmet).resolve_left (by simp) name hname n hn
    exact ih (.inr ⟨name, hfound, n, hn, rfl⟩)

end Search

/-- The search finds what can be reached, each name once. -/
theorem reachableNames_spec {roots pending : List (TypeExpr String)} {found : List String}
    (h : Search named roots pending found) (steps : Nat)
    (hsteps : pending.length + named.length ≤ steps + found.length) :
    (reachableNames named steps pending found).Nodup ∧
      ∀ name, name ∈ reachableNames named steps pending found ↔
        ∃ type ∈ roots, Reaches named type name := by
  induction steps generalizing pending found with
  | zero =>
    obtain rfl := h.eq_nil_of_le (by omega)
    exact ⟨h.nodup, fun name => h.mem_iff⟩
  | succ steps ih =>
    cases pending with
    | nil => exact ⟨h.nodup, fun name => h.mem_iff⟩
    | cons type pending => exact ih h.step (Search.length_next_le hsteps)

/-- More steps than are enough find nothing more. -/
theorem reachableNames_add {roots pending : List (TypeExpr String)} {found : List String}
    (h : Search named roots pending found) (steps extra : Nat)
    (hsteps : pending.length + named.length ≤ steps + found.length) :
    reachableNames named (steps + extra) pending found =
      reachableNames named steps pending found := by
  induction steps generalizing pending found with
  | zero =>
    obtain rfl := h.eq_nil_of_le (by omega)
    cases extra <;> simp [reachableNames]
  | succ steps ih =>
    rw [Nat.succ_add]
    cases pending with
    | nil => simp [reachableNames]
    | cons type pending => exact ih h.step (Search.length_next_le hsteps)

/-- The steps of a search from the types of an endpoint are enough. -/
theorem length_types_le (e : Endpoint) (named : List NamedType) :
    (e.response.toList ++ e.body.toList).length + named.length ≤
      named.length + 2 + ([] : List String).length := by
  have hlength : (e.response.toList ++ e.body.toList).length ≤ 2 := by
    cases e.response <;> cases e.body <;> simp
  rw [List.length_nil]
  omega

/-- An endpoint requires the named types that it needs, each once. -/
theorem requiredNames_spec (e : Endpoint) (named : List NamedType) :
    (e.requiredNames named).Nodup ∧
      ∀ name, name ∈ e.requiredNames named ↔ e.Needs named name := by
  obtain ⟨hnodup, hmem⟩ := reachableNames_spec
    (Search.start named (e.response.toList ++ e.body.toList)) (named.length + 2)
    (length_types_le e named)
  refine ⟨hnodup, fun name => ?_⟩
  rw [Endpoint.requiredNames, hmem]
  simp only [Endpoint.Needs, List.mem_append, or_comm]

theorem requiredNames_eq_add (e : Endpoint) (named : List NamedType) (extra : Nat) :
    e.requiredNames named =
      reachableNames named (named.length + 2 + extra) (e.response.toList ++ e.body.toList) [] :=
  (reachableNames_add (Search.start named _) (named.length + 2) extra
    (length_types_le e named)).symm

end SwaggerClient
