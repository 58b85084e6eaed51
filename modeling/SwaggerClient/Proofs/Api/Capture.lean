import SwaggerClient.Proofs.Api.Consulted
import SwaggerClient.Proofs.Api.Meaning
import SwaggerClient.Proofs.Api.Requirement

/-!
# Captured names

A name that no definition has is written as it is, since it is declared elsewhere.  A definition
that contains itself is declared under a type name, and this is chosen to differ from the type
names chosen before, not from the names that are written as they are.  When the two meet, the
type of the definition takes the place of the one declared elsewhere.  They meet only by a
definition whose name is no identifier, and where they do not, what an endpoint needs is what
its schemas point at.
-/

namespace SwaggerClient

namespace Definitions

/-- Whether targets point at a definition, by themselves or through the expansions of the
definitions that they point at. -/
inductive PointsTo (definitions : Definitions) : List Target → String → Prop
  | here {targets : List Target} {definition : String} (h : .enclosing definition ∈ targets) :
      PointsTo definitions targets definition
  | through {targets : List Target} {definition last : String}
      (h : .enclosing definition ∈ targets)
      (hr : PointsTo definitions (definitions.expandDefinition definition).references last) :
      PointsTo definitions targets last

variable {definitions : Definitions} {targets others : List Target} {last : String}

theorem PointsTo.mono (h : definitions.PointsTo targets last) (hs : targets ⊆ others) :
    definitions.PointsTo others last := by
  cases h with
  | here h => exact .here (hs h)
  | through h hr => exact .through (hs h) hr

theorem pointsTo_flatMap_iff {α : Type} {as : List α} {f : α → List Target} :
    definitions.PointsTo (as.flatMap f) last ↔ ∃ a ∈ as, definitions.PointsTo (f a) last := by
  constructor
  · intro h
    cases h with
    | here h =>
      obtain ⟨a, ha, h⟩ := List.mem_flatMap.1 h
      exact ⟨a, ha, .here h⟩
    | through h hr =>
      obtain ⟨a, ha, h⟩ := List.mem_flatMap.1 h
      exact ⟨a, ha, .through h hr⟩
  · rintro ⟨a, ha, h⟩
    exact h.mono fun target ht => List.mem_flatMap.2 ⟨a, ha, ht⟩

end Definitions

namespace Document

variable {d : Document} {name : String} {type : TypeExpr Target} {target : Target} {route : Route}

/-- Whether a stray name is the name of a named type. -/
def Captured (d : Document) (name : String) : Prop :=
  d.Stray name ∧ name ∈ d.api.named.map (·.name)

theorem declarations_numbered (d : Document) : d.declarations.Numbered :=
  d.api_spec.2.2.numbered (Declarations.Numbered.nil.declareTargets _)

/-! ## When a name is captured -/

/-- A stray name is captured when it is the name that a declared definition comes to. -/
theorem captured_iff :
    d.Captured name ↔ d.Stray name ∧
      ∃ before entry after, d.declarations = before ++ entry :: after ∧
        freeName (before.map Prod.snd) (typeIdentifier entry.1) = name := by
  rw [Captured, names_named]
  refine and_congr_right fun _ => ?_
  constructor
  · intro h
    obtain ⟨entry, he, rfl⟩ := List.mem_map.1 h
    obtain ⟨before, after, hsplit⟩ := List.append_of_mem he
    exact ⟨before, entry, after, hsplit, (d.declarations_numbered _ _ _ hsplit).symm⟩
  · rintro ⟨before, entry, after, hsplit, rfl⟩
    rw [← d.declarations_numbered _ _ _ hsplit, hsplit]
    simp

/-- No name is captured when the declared definitions have identifiers for names. -/
theorem not_captured_of_isIdentifier (hi : ∀ entry ∈ d.declarations, isIdentifier entry.1) :
    ¬ d.Captured name := by
  rintro ⟨hstray, hmem⟩
  rw [names_named] at hmem
  obtain ⟨entry, he, rfl⟩ := List.mem_map.1 hmem
  obtain ⟨before, after, hsplit⟩ := List.append_of_mem he
  have hname := d.declarations_numbered.eq_of_isIdentifier d.declarations_sound.nodup hi hsplit
  rw [hname] at hstray
  exact hstray.1 (d.declarations_sound.subset (List.mem_map_of_mem he))

/-! ## What an endpoint requires -/

/-- What an endpoint requires is what the types of its schemas reach. -/
theorem mem_requires_iff :
    name ∈ (d.endpointOf route).requires ↔
      ∃ node ∈ route.given, Reaches d.api.named
        ((d.definitions.expandNode [] node).mapReferences d.declarations.nameOf) name := by
  have hneeds : name ∈ (d.endpointOf route).requires ↔
      (d.endpointOf route).Needs d.api.named name :=
    (requiredNames_spec (route.expandedEndpoint d.definitions d.declarations.nameOf)
      d.api.named).2 name
  rw [hneeds, Endpoint.Needs, endpointOf_types, List.map_map]
  simp only [List.mem_map, Function.comp_apply, exists_exists_and_eq_and]

/-- A name that is captured is required where it is left as a target. -/
theorem mem_requires_of_captured (h : d.Captured name)
    (ht : .undefined name ∈ route.targets d.definitions) :
    name ∈ (d.endpointOf route).requires := by
  rw [Route.targets_eq, List.mem_flatMap] at ht
  obtain ⟨node, hn, ht⟩ := ht
  obtain ⟨n, hnamed, rfl⟩ := List.mem_map.1 h.2
  refine mem_requires_iff.2 ⟨node, hn, .reference ?_ (findNamed_of_mem d.named_nodup hnamed)⟩
  rw [TypeExpr.references_mapReferences]
  exact List.mem_map.2 ⟨_, ht, rfl⟩

/-- Whether the name of a target stands for what the target points at. -/
def Target.Resolved (d : Document) : Target → Prop
  | .undefined name => name ∉ d.api.named.map (·.name)
  | .enclosing definition => definition ∈ d.declarations.map Prod.fst

/-- Without a captured name all targets are resolved. -/
theorem resolved_of_not_captured (hc : ∀ name, ¬ d.Captured name) (h : type ∈ d.expansions)
    (ht : target ∈ type.references) : Target.Resolved d target := by
  cases target with
  | enclosing definition => exact covers_of_mem_expansions h definition ht
  | undefined name =>
    intro hmem
    exact hc name ⟨stray_iff_mem_references.2 ⟨type, h, ht⟩, hmem⟩

/-- What targets point at is reached by its type name. -/
theorem reaches_of_pointsTo {targets : List Target} {definition : String}
    (hp : d.definitions.PointsTo targets definition) (h : type ∈ d.expansions)
    (ht : targets = type.references) :
    Reaches d.api.named (type.mapReferences d.declarations.nameOf)
      (d.declarations.typeName definition) := by
  induction hp generalizing type with
  | @here targets definition hd =>
    subst ht
    refine .reference ?_ (findNamed_typeName (covers_of_mem_expansions h definition hd))
    rw [TypeExpr.references_mapReferences]
    exact List.mem_map_of_mem (f := d.declarations.nameOf) hd
  | @through targets definition last hd _ ih =>
    subst ht
    have hdeclared := covers_of_mem_expansions h definition hd
    refine .through ?_ (findNamed_typeName hdeclared)
      (ih (expandDefinition_mem_expansions hdeclared) rfl)
    rw [TypeExpr.references_mapReferences]
    exact List.mem_map_of_mem (f := d.declarations.nameOf) hd

/-- Without a captured name the first reference on the way to a named type is a target. -/
theorem exists_enclosing_of_findNamed (hc : ∀ name, ¬ d.Captured name) (h : type ∈ d.expansions)
    (hname : name ∈ (type.mapReferences d.declarations.nameOf).references) {n : NamedType}
    (hn : findNamed d.api.named name = some n) :
    ∃ definition, .enclosing definition ∈ type.references ∧
      d.declarations.typeName definition = name ∧
      d.definitions.expandDefinition definition ∈ d.expansions ∧
      n.type = (d.definitions.expandDefinition definition).mapReferences d.declarations.nameOf := by
  rw [TypeExpr.references_mapReferences] at hname
  obtain ⟨target, ht, rfl⟩ := List.mem_map.1 hname
  have hresolved := resolved_of_not_captured hc h ht
  cases target with
  | undefined name =>
    exact absurd (List.mem_map.2 ⟨n, mem_of_findNamed hn, name_of_findNamed hn⟩) hresolved
  | enclosing definition =>
    have hfind := findNamed_typeName hresolved
    obtain rfl := Option.some.inj (hfind.symm.trans hn)
    exact ⟨definition, ht, rfl, expandDefinition_mem_expansions hresolved, rfl⟩

/-- Without a captured name only what the targets point at is reached. -/
theorem pointsTo_of_reaches (hc : ∀ name, ¬ d.Captured name) {renamed : TypeExpr String}
    (hr : Reaches d.api.named renamed name) (h : type ∈ d.expansions)
    (ht : renamed = type.mapReferences d.declarations.nameOf) :
    ∃ definition, d.definitions.PointsTo type.references definition ∧
      d.declarations.typeName definition = name := by
  induction hr generalizing type with
  | reference hname hn =>
    subst ht
    obtain ⟨definition, hd, rfl, -, -⟩ := exists_enclosing_of_findNamed hc h hname hn
    exact ⟨definition, .here hd, rfl⟩
  | through hname hn _ ih =>
    subst ht
    obtain ⟨definition, hd, -, hmem, hntype⟩ := exists_enclosing_of_findNamed hc h hname hn
    obtain ⟨last, hlast, rfl⟩ := ih hmem hntype
    exact ⟨last, .through hd hlast, rfl⟩

/-- Without a captured name an endpoint requires the type names of what its schemas point
at. -/
theorem mem_requires_iff_of_not_captured (hc : ∀ name, ¬ d.Captured name) (hr : route ∈ d.routes) :
    name ∈ (d.endpointOf route).requires ↔
      ∃ definition, d.definitions.PointsTo (route.targets d.definitions) definition ∧
        d.declarations.typeName definition = name := by
  rw [mem_requires_iff, Route.targets_eq]
  simp only [Definitions.pointsTo_flatMap_iff]
  constructor
  · rintro ⟨node, hn, h⟩
    obtain ⟨definition, hp, rfl⟩ :=
      pointsTo_of_reaches hc h (expandNode_mem_expansions hr hn) rfl
    exact ⟨definition, ⟨node, hn, hp⟩, rfl⟩
  · rintro ⟨definition, ⟨node, hn, hp⟩, rfl⟩
    exact ⟨node, hn, reaches_of_pointsTo hp (expandNode_mem_expansions hr hn) rfl⟩

/-- When the name of a reference without a definition is also the name of a named type.  Such
references are those of names that are looked up and that no definition has, and they are the
undefined targets in the types of the interface.  Their name is taken exactly when a declared
definition comes to it as the first name that is free, which it never does when the declared
definitions have identifiers for names.  A name that is taken is required by every endpoint whose
schemas refer to it, and there is one.  When no name is, an endpoint requires what its schemas
point at. -/
theorem captured_exact (d : Document) :
    d.api.types = d.expansions.map (TypeExpr.mapReferences d.declarations.nameOf) ∧
      (∀ name, d.Stray name ↔ ∃ type ∈ d.expansions, .undefined name ∈ type.references) ∧
      (∀ name, d.Captured name ↔ d.Stray name ∧
        ∃ before entry after, d.declarations = before ++ entry :: after ∧
          freeName (before.map Prod.snd) (typeIdentifier entry.1) = name) ∧
      ((∀ entry ∈ d.declarations, isIdentifier entry.1) → ∀ name, ¬ d.Captured name) ∧
      (∀ name, d.Captured name →
        (∃ route ∈ d.routes, .undefined name ∈ route.targets d.definitions) ∧
        ∀ route ∈ d.routes, .undefined name ∈ route.targets d.definitions →
          name ∈ (d.endpointOf route).requires) ∧
      ((∀ name, ¬ d.Captured name) → ∀ route ∈ d.routes, ∀ name,
        name ∈ (d.endpointOf route).requires ↔
          ∃ definition, d.definitions.PointsTo (route.targets d.definitions) definition ∧
            d.declarations.typeName definition = name) :=
  ⟨d.types_eq, fun _ => stray_iff_mem_references, fun _ => captured_iff,
    fun hi _ => not_captured_of_isIdentifier hi,
    fun _ h => ⟨h.1.exists_mem_targets, fun _ _ ht => mem_requires_of_captured h ht⟩,
    fun hc _ hr _ => mem_requires_iff_of_not_captured hc hr⟩

/-- A document with a definition that contains itself, and a reference to a name that no
definition has but that is the type name of this one. -/
def dinnerDocument : Document where
  paths := [
    ("/menu", [(.get, { responses := [("200", { schema := some (referenceTo "model.Menu") })] })]),
    ("/dinner", [(.get, { responses := [("200", { schema := some (referenceTo "ModelMenu") })] })])]
  definitions := [("model.Menu", {
    properties := some [("children", {
      type := some (.single .array), items := some (referenceTo "model.Menu") })] })]

/-- A reference that no definition resolves may be taken for a definition of another name. -/
theorem dinnerDocument_captured :
    dinnerDocument.Captured "ModelMenu" ∧
      dinnerDocument.api.endpoints.map (fun e => (e.url, e.requires)) =
        [("/menu", ["ModelMenu"]), ("/dinner", ["ModelMenu"])] := by
  have hroute : ∃ route ∈ dinnerDocument.routes, referenceTo "ModelMenu" ∈ route.given :=
    ⟨_, List.mem_cons_of_mem _ List.mem_cons_self, List.mem_singleton_self _⟩
  have hform : (referenceTo "ModelMenu").form = .reference "ModelMenu" :=
    congrArg SchemaForm.reference (by decide +kernel)
  have hnamed : "ModelMenu" ∈ dinnerDocument.api.named.map (·.name) := by decide +kernel
  obtain ⟨route, hr, hn⟩ := hroute
  have hstray : dinnerDocument.Stray "ModelMenu" :=
    ⟨by decide, route, hr, .schema hn (.reference hform)⟩
  exact ⟨⟨hstray, hnamed⟩, by decide +kernel⟩

end Document

end SwaggerClient
