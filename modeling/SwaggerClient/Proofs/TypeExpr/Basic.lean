import Mathlib.Data.List.Basic
import SwaggerClient.TypeExpr.Basic

/-!
# Induction on type expressions

A type expression holds lists of type expressions, so the principle that comes with
its definition speaks of lists as well.  Here is the one that speaks of parts, and
what the functions on type expressions do to lists of parts.
-/

namespace SwaggerClient.TypeExpr

variable {ρ σ τ : Type}

/-- Induction on type expressions: a property of all types that holds of a type when
it holds of the parts. -/
@[elab_as_elim, induction_eliminator]
theorem induct {motive : TypeExpr ρ → Prop}
    (primitive : ∀ kind, motive (.primitive kind))
    (object : ∀ members index, (∀ m ∈ members, motive m.type) →
      (∀ value, index = some value → motive value) → motive (.object members index))
    (array : ∀ item, motive item → motive (.array item))
    (union : ∀ items, (∀ t ∈ items, motive t) → motive (.union items))
    (intersection : ∀ items, (∀ t ∈ items, motive t) → motive (.intersection items))
    (literals : ∀ values, motive (.literals values))
    (reference : ∀ target, motive (.reference target))
    (map : ∀ value, motive value → motive (.map value)) (t : TypeExpr ρ) : motive t :=
  TypeExpr.rec (motive_1 := motive) (motive_2 := fun ms => ∀ m ∈ ms, motive m.type)
    (motive_3 := fun o => ∀ value, o = some value → motive value)
    (motive_4 := fun ts => ∀ t ∈ ts, motive t) (motive_5 := fun m => motive m.type)
    primitive object array union intersection literals reference map
    (by simp)
    (fun m ms hm hms => by simpa using ⟨hm, hms⟩)
    (by simp)
    (fun value h => by simpa using h)
    (by simp)
    (fun t ts ht hts => by simpa using ⟨ht, hts⟩)
    (fun _ _ _ _ h => h) t

/-! ## Lists of parts -/

@[simp] theorem referencesOfAll_eq (items : List (TypeExpr ρ)) :
    referencesOfAll items = items.flatMap references := by
  induction items with
  | nil => rfl
  | cons item items ih => simp [referencesOfAll, ih]

@[simp] theorem referencesOfMembers_eq (members : List (Member (TypeExpr ρ))) :
    referencesOfMembers members = members.flatMap (·.type.references) := by
  induction members with
  | nil => rfl
  | cons m members ih => simp [referencesOfMembers, ih]

@[simp] theorem mapAll_eq (f : ρ → σ) (items : List (TypeExpr ρ)) :
    mapAll f items = items.map (mapReferences f) := by
  induction items with
  | nil => rfl
  | cons item items ih => simp [mapAll, ih]

/-- A member with every reference in its type replaced. -/
def mapMember (f : ρ → σ) (m : Member (TypeExpr ρ)) : Member (TypeExpr σ) :=
  ⟨m.name, m.optional, m.doc, m.type.mapReferences f⟩

@[simp] theorem mapMembers_eq (f : ρ → σ) (members : List (Member (TypeExpr ρ))) :
    mapMembers f members = members.map (mapMember f) := by
  induction members with
  | nil => rfl
  | cons m members ih => simp [mapMembers, mapMember, ih]

@[simp] theorem references_object (members : List (Member (TypeExpr ρ)))
    (index : Option (TypeExpr ρ)) :
    (object members index).references =
      members.flatMap (·.type.references) ++ index.toList.flatMap references := by
  cases index <;> simp [references]

@[simp] theorem mapReferences_object (f : ρ → σ) (members : List (Member (TypeExpr ρ)))
    (index : Option (TypeExpr ρ)) :
    (object members index).mapReferences f =
      .object (members.map (mapMember f)) (index.map (mapReferences f)) := by
  cases index <;> simp [mapReferences]

@[simp] theorem references_ofMembers (members : List (Member (TypeExpr ρ)))
    (index : Option (TypeExpr ρ)) :
    (ofMembers members index).references =
      members.flatMap (·.type.references) ++ index.toList.flatMap references := by
  unfold ofMembers
  split
  next h =>
    simp only [Bool.and_eq_true, List.isEmpty_iff, Option.isNone_iff_eq_none] at h
    simp [h.1, h.2, unknown, references]
  next => simp

@[simp] theorem mapReferences_ofMembers (f : ρ → σ) (members : List (Member (TypeExpr ρ)))
    (index : Option (TypeExpr ρ)) :
    (ofMembers members index).mapReferences f =
      ofMembers (members.map (mapMember f)) (index.map (mapReferences f)) := by
  simp only [ofMembers, List.isEmpty_map, Option.isNone_map]
  split
  · rfl
  · simp

/-! ## Replacing references -/

/-- The references of a type with its references replaced. -/
theorem references_mapReferences (f : ρ → σ) (t : TypeExpr ρ) :
    (t.mapReferences f).references = t.references.map f := by
  induction t with
  | primitive => rfl
  | object members index ihm ihi =>
    have hm : members.flatMap (fun m => (mapMember f m).type.references) =
        members.flatMap fun m => m.type.references.map f :=
      List.flatMap_congr fun m hm => ihm m hm
    cases index with
    | none => simp [List.flatMap_map, List.map_flatMap, hm]
    | some value => simp [List.flatMap_map, List.map_flatMap, hm, ihi value rfl]
  | array item ih => simpa [references, mapReferences] using ih
  | union items ih | intersection items ih =>
    have h : items.flatMap (fun t => (t.mapReferences f).references) =
        items.flatMap fun t => t.references.map f := List.flatMap_congr fun t ht => ih t ht
    simpa [references, mapReferences, List.flatMap_map, List.map_flatMap] using h
  | literals => rfl
  | reference => rfl
  | map value ih => simpa [references, mapReferences] using ih

/-- References replaced twice are replaced at once. -/
theorem mapReferences_mapReferences {f : ρ → σ} {g : σ → τ} {h : ρ → τ} {t : TypeExpr ρ}
    (heq : ∀ target ∈ t.references, g (f target) = h target) :
    (t.mapReferences f).mapReferences g = t.mapReferences h := by
  induction t with
  | primitive => rfl
  | object members index ihm ihi =>
    rw [references_object] at heq
    have hmembers : members.map (mapMember g ∘ mapMember f) = members.map (mapMember h) := by
      refine List.map_congr_left fun m hm => ?_
      have htype := ihm m hm fun target ht =>
        heq target (List.mem_append_left _ (List.mem_flatMap.2 ⟨m, hm, ht⟩))
      simp [mapMember, htype]
    cases index with
    | none => simp [hmembers]
    | some value =>
      have hvalue := ihi value rfl fun target ht => heq target (by simp [ht])
      simp [hmembers, hvalue]
  | array item ih => simpa [mapReferences] using ih heq
  | union items ih | intersection items ih =>
    have hitems : items.map (mapReferences g ∘ mapReferences f) = items.map (mapReferences h) := by
      refine List.map_congr_left fun t ht => ih t ht fun target htarget => heq target ?_
      simpa [references] using ⟨t, ht, htarget⟩
    simp [mapReferences, hitems]
  | literals => rfl
  | reference target =>
    have htarget := heq target List.mem_cons_self
    simp [mapReferences, htarget]
  | map value ih => simpa [mapReferences] using ih heq

/-- What the references of a type are replaced by is all that the replaced type depends on. -/
theorem mapReferences_congr {f g : ρ → σ} {t : TypeExpr ρ}
    (heq : ∀ target ∈ t.references, f target = g target) :
    t.mapReferences f = t.mapReferences g :=
  calc
    t.mapReferences f = (t.mapReferences f).mapReferences id :=
      (mapReferences_mapReferences (g := id) (h := f) fun _ _ => rfl).symm
    _ = t.mapReferences g := mapReferences_mapReferences heq

end SwaggerClient.TypeExpr
