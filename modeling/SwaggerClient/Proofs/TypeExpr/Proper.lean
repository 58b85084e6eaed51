import SwaggerClient.Proofs.Schema.Observation

/-!
# Proper types

What a back end relies on in a type, at every depth: objects with something in them and members of
distinct names, documentation that is not empty, and no empty unions, intersections and lists of
literals.
-/

namespace SwaggerClient.TypeExpr

variable {ρ σ : Type}

/-- Whether a type is in order, without regard to the types in it. -/
def Proper : TypeExpr ρ → Prop
  | .object members index =>
    (members ≠ [] ∨ index ≠ none) ∧ (members.map (·.name)).Nodup ∧
      ∀ m ∈ members, m.doc ≠ some ""
  | .union items | .intersection items => items ≠ []
  | .literals values => values ≠ []
  | .primitive _ | .array _ | .reference _ | .map _ => True

/-- Whether a type has a part behind a selector.  An object may have several members of one name,
and each of them is a part. -/
def HasPart : TypeExpr ρ → Selector → TypeExpr ρ → Prop
  | .object members _, .property name, child => ∃ m ∈ members, m.name = name ∧ m.type = child
  | t, selector, child => t.part selector = some child

/-- Whether a type stands in another one, at the end of a path. -/
inductive At : TypeExpr ρ → List Selector → TypeExpr ρ → Prop
  | here {t : TypeExpr ρ} : At t [] t
  | inside {t child u : TypeExpr ρ} {selector : Selector} {path : List Selector}
      (hc : t.HasPart selector child) (h : At child path u) : At t (selector :: path) u

/-- A proper type has one part behind a selector. -/
theorem Proper.part_eq {t child : TypeExpr ρ} {selector : Selector} (h : t.Proper)
    (hc : t.HasPart selector child) : t.part selector = some child := by
  cases t with
  | object members index =>
    cases selector with
    | property name =>
      obtain ⟨m, hm, rfl, rfl⟩ := hc
      have hsome : (members.find? fun other => m.name == other.name).isSome :=
        List.find?_isSome.2 ⟨m, hm, beq_self_eq_true m.name⟩
      obtain ⟨found, hfound⟩ := Option.isSome_iff_exists.1 hsome
      have hname : m.name = found.name := by simpa using List.find?_some hfound
      obtain rfl : m = found :=
        List.inj_on_of_nodup_map h.2.1 hm (List.mem_of_find?_eq_some hfound) hname
      rw [part, hfound, Option.map_some]
    | additional | item | alternative => exact hc
  | _ => exact hc

/-- There is nothing in a reference. -/
theorem eq_of_at_reference {target : ρ} {path : List Selector} {u : TypeExpr ρ}
    (h : (TypeExpr.reference target).At path u) : u = .reference target := by
  cases h with
  | here => rfl
  | inside hc => cases hc

theorem Proper.mapReferences {t : TypeExpr ρ} (h : t.Proper) (f : ρ → σ) :
    (t.mapReferences f).Proper := by
  cases t with
  | object members index =>
    obtain ⟨hne, hnodup, hdoc⟩ := h
    rw [mapReferences_object]
    refine ⟨by simpa using hne, by simpa [mapMember, Function.comp_def] using hnodup, ?_⟩
    intro m hm
    obtain ⟨old, hold, rfl⟩ := List.mem_map.1 hm
    exact hdoc old hold
  | union items | intersection items =>
    rw [TypeExpr.mapReferences, mapAll_eq]
    exact mt List.map_eq_nil_iff.1 h
  | literals => exact h
  | primitive | array | reference | map => trivial

/-- A union of one was one before its references were replaced. -/
theorem eq_union_of_mapReferences {t : TypeExpr ρ} {f : ρ → σ} {item : TypeExpr σ}
    (h : t.mapReferences f = .union [item]) : ∃ single, t = .union [single] := by
  cases t with
  | union items =>
    rw [mapReferences, mapAll_eq] at h
    obtain ⟨single, rfl, -⟩ := List.map_eq_singleton_iff.1 (union.inj h)
    exact ⟨single, rfl⟩
  | object members index =>
    rw [mapReferences_object] at h
    cases h
  | primitive | array | intersection | literals | reference | map => cases h

end SwaggerClient.TypeExpr
