import SwaggerClient.Proofs.Api.Lowered
import SwaggerClient.Proofs.Api.Requirement
import SwaggerClient.Proofs.Client.Aliases

/-!
# Modules stand by themselves

A module declares the named types that its endpoints need, each once and in front of the
first endpoint that does, and so declares whatever its types refer to.
-/

namespace SwaggerClient

/-! ## The parts of a module -/

namespace Api

variable {api : Api} {declared : List String} {es : List Endpoint} {n : NamedType}

theorem endpoints_parts (api : Api) (declared : List String) (es : List Endpoint) :
    (api.parts declared es).map (·.endpoint) = es := by
  induction es generalizing declared with
  | nil => rfl
  | cons e es ih => simp [parts, ih]

/-- What is declared in a part is required by its endpoint, and was not declared before. -/
theorem mem_named_of_parts {part : ModulePart} (hp : part ∈ api.parts declared es)
    (hn : n ∈ part.named) :
    findNamed api.named n.name = some n ∧ n.name ∈ part.endpoint.requires ∧ n.name ∉ declared := by
  induction es generalizing declared with
  | nil => simp [parts] at hp
  | cons e es ih =>
    rcases List.mem_cons.1 hp with rfl | hp
    · exact mem_newlyFound_iff.1 hn
    · obtain ⟨hfind, hrequires, hnew⟩ := ih hp
      exact ⟨hfind, hrequires, fun h => hnew (List.mem_append_left _ h)⟩

/-- No name is declared twice. -/
theorem nodup_parts (api : Api) (declared : List String) (es : List Endpoint) :
    (((api.parts declared es).flatMap (·.named)).map (·.name)).Nodup := by
  induction es generalizing declared with
  | nil => exact List.nodup_nil
  | cons e es ih =>
    rw [parts, List.flatMap_cons, List.map_append]
    refine (nodup_newlyFound _ _ _).append (ih _) fun name hnew hlater => ?_
    obtain ⟨n, hn, rfl⟩ := List.mem_map.1 hlater
    obtain ⟨part, hp, hn⟩ := List.mem_flatMap.1 hn
    exact (mem_named_of_parts hp hn).2.2 (List.mem_append_right _ hnew)

/-- A named type that an endpoint requires is declared in front of the first one that
does. -/
theorem exists_first_part (hn : findNamed api.named n.name = some n) (hnew : n.name ∉ declared)
    (he : ∃ e ∈ es, n.name ∈ e.requires) :
    ∃ before part after, api.parts declared es = before ++ part :: after ∧ n ∈ part.named ∧
      n.name ∈ part.endpoint.requires ∧ ∀ p ∈ before, n.name ∉ p.endpoint.requires := by
  induction es generalizing declared with
  | nil => simp at he
  | cons e es ih =>
    by_cases hrequires : n.name ∈ e.requires
    · exact ⟨[], ⟨newlyFound api.named declared e.requires, e⟩, _, rfl,
        mem_newlyFound_iff.2 ⟨hn, hrequires, hnew⟩, hrequires, by simp⟩
    · obtain ⟨other, hmem, hother⟩ := he
      have hmem : other ∈ es := by
        refine (List.mem_cons.1 hmem).resolve_left ?_
        rintro rfl
        exact hrequires hother
      have hlater :
          n.name ∉ declared ++ (newlyFound api.named declared e.requires).map (·.name) := by
        intro h
        rcases List.mem_append.1 h with h | h
        · exact hnew h
        · obtain ⟨m, hm, hname⟩ := List.mem_map.1 h
          exact hrequires (hname ▸ (mem_newlyFound_iff.1 hm).2.1)
      obtain ⟨before, part, after, hparts, hnamed, hpart, hbefore⟩ :=
        ih hlater ⟨other, hmem, hother⟩
      refine ⟨⟨newlyFound api.named declared e.requires, e⟩ :: before, part, after, ?_, hnamed,
        hpart, List.forall_mem_cons.2 ⟨hrequires, hbefore⟩⟩
      rw [parts, hparts]
      rfl

end Api

namespace Endpoint

variable {e : Endpoint} {t : TypeDeclaration}

/-- What the declarations of an endpoint declare: its parameters, its body and its
response. -/
theorem type_of_mem_declarations (ht : t ∈ e.declarations) :
    t.type = e.pathShape ∨ t.type = e.queryShape ∨ e.body = some t.type ∨
      t.type = e.response.getD .unknown := by
  simp only [declarations, List.mem_append, List.mem_singleton] at ht
  rcases ht with ((ht | ht) | ht) | rfl
  · unfold pathDeclaration at ht
    split at ht
    · cases ht
    · exact .inl (congrArg TypeDeclaration.type (List.mem_singleton.1 ht))
  · unfold queryDeclaration at ht
    split at ht
    · cases ht
    · exact .inr (.inl (congrArg TypeDeclaration.type (List.mem_singleton.1 ht)))
  · unfold bodyDeclaration at ht
    split at ht
    · cases ht
    next body hbody =>
      obtain rfl := List.mem_singleton.1 ht
      exact .inr (.inr (.inl hbody))
  · exact .inr (.inr (.inr rfl))

/-- The types that belong to an endpoint refer to what its body and response refer to. -/
theorem exists_of_mem_declarations (ht : t ∈ e.declarations) {name : String}
    (hname : name ∈ t.type.references) :
    ∃ type ∈ e.body.toList ++ e.response.toList, name ∈ type.references := by
  rcases type_of_mem_declarations ht with htype | htype | hbody | htype
  · simp [htype, pathShape, TypeExpr.references] at hname
  · simp [htype, queryShape, TypeExpr.references] at hname
  · exact ⟨t.type, by simp [hbody], hname⟩
  · cases hr : e.response with
    | none => simp [htype, hr, TypeExpr.unknown, TypeExpr.references] at hname
    | some response => exact ⟨response, by simp, by simpa [htype, hr] using hname⟩

end Endpoint

namespace Document

variable {d : Document} {group name : String}

/-- An endpoint of the interface of a document requires what it needs, each name once. -/
theorem requires_spec {e : Endpoint} (he : e ∈ d.api.endpoints) :
    e.requires.Nodup ∧ ∀ name, name ∈ e.requires ↔ e.Needs d.api.named name := by
  rw [api_endpoints] at he
  obtain ⟨e, -, rfl⟩ := List.mem_map.1 he
  exact requiredNames_spec e d.api.named

theorem mem_endpoints_of_part {part : ModulePart} (hp : part ∈ d.api.moduleParts group) :
    part.endpoint ∈ d.api.endpointsIn group := by
  have := List.mem_map_of_mem (f := (·.endpoint)) hp
  rwa [Api.moduleParts, Api.endpoints_parts] at this

/-- What an endpoint of a group needs is declared in its module. -/
theorem exists_part_of_needs {n : NamedType} (hn : n ∈ d.api.named) {e : Endpoint}
    (he : e ∈ d.api.endpointsIn group) (hneeds : e.Needs d.api.named n.name) :
    ∃ before part after, d.api.moduleParts group = before ++ part :: after ∧ n ∈ part.named ∧
      part.endpoint.Needs d.api.named n.name ∧
      ∀ p ∈ before, ¬ p.endpoint.Needs d.api.named n.name := by
  have hrequires : ∀ {e}, e ∈ d.api.endpointsIn group →
      (n.name ∈ e.requires ↔ e.Needs d.api.named n.name) :=
    fun he => (requires_spec (List.mem_of_mem_filter he)).2 n.name
  have hnew : n.name ∉ ([] : List String) := List.not_mem_nil
  obtain ⟨before, part, after, hparts, hnamed, hpart, hbefore⟩ :=
    Api.exists_first_part (findNamed_of_mem d.named_nodup hn) hnew ⟨e, he, (hrequires he).2 hneeds⟩
  have hmem : ∀ p ∈ before ++ part :: after, p.endpoint ∈ d.api.endpointsIn group := by
    intro p hp
    rw [← hparts] at hp
    exact mem_endpoints_of_part hp
  refine ⟨before, part, after, hparts, hnamed, ?_, fun p hp => ?_⟩
  · exact (hrequires (hmem part (by simp))).1 hpart
  · exact fun hneeds => hbefore p hp ((hrequires (hmem p (by simp [hp]))).2 hneeds)

/-- What is declared in front of an endpoint is needed by it. -/
theorem needs_of_mem_named {part : ModulePart} (hp : part ∈ d.api.moduleParts group) {n : NamedType}
    (hn : n ∈ part.named) :
    findNamed d.api.named n.name = some n ∧ part.endpoint.Needs d.api.named n.name := by
  obtain ⟨hfind, hrequires, -⟩ := Api.mem_named_of_parts hp hn
  have he := List.mem_of_mem_filter (mem_endpoints_of_part hp)
  exact ⟨hfind, ((requires_spec he).2 n.name).1 hrequires⟩

/-- What a type that an endpoint reaches refers to is needed by the endpoint, or is no
definition of the document. -/
theorem needs_or_undefined {part : ModulePart} (hp : part ∈ d.api.moduleParts group)
    {t : TypeDeclaration} (ht : t ∈ part.declarations) (hname : name ∈ t.type.references) :
    (∃ n, findNamed d.api.named name = some n ∧ part.endpoint.Needs d.api.named name) ∨
      (d.definitions.get? name = none ∧ name ∈ d.references.map Prod.fst) := by
  have he := List.mem_of_mem_filter (mem_endpoints_of_part hp)
  -- The reference names a known target, and the endpoint reaches what it names.
  have hknown : (∃ target, Target.Known d target ∧ name = d.declarations.nameOf target) ∧
      ∀ n, findNamed d.api.named name = some n → part.endpoint.Needs d.api.named name := by
    rcases List.mem_append.1 ht with ht | ht
    · obtain ⟨m, hm, rfl⟩ := List.mem_map.1 ht
      obtain ⟨hfind, type, htype, hr⟩ := needs_of_mem_named hp hm
      refine ⟨known_of_named (mem_of_findNamed hfind) hname, fun n hn => ?_⟩
      exact ⟨type, htype, hr.trans hfind (.reference hname hn)⟩
    · obtain ⟨type, htype, hname⟩ := Endpoint.exists_of_mem_declarations ht hname
      exact ⟨known_of_endpoint he htype hname, fun n hn => ⟨type, htype, .reference hname hn⟩⟩
  obtain ⟨⟨target, htarget, rfl⟩, hneeds⟩ := hknown
  cases target with
  | undefined name => exact .inr htarget
  | enclosing definition =>
    have hfind := findNamed_typeName htarget
    exact .inl ⟨_, hfind, hneeds _ hfind⟩

theorem isIdentifier_named : ∀ n ∈ d.api.named, isIdentifier n.name := by
  intro n hn
  have hname := List.mem_map_of_mem (f := (·.name)) hn
  rw [names_named] at hname
  exact d.declarations_sound.identifiers n.name hname

end Document

/-! ## The source of a module -/

/-- Whether a text is the source of a part, in an interface with some named types: the lines that
declare the named types of the part, one after the other, then the types that belong to its
endpoint, each below a comment, and the function.  The lines tell which named types they are for. -/
structure ModulePart.WrittenAs (named : List NamedType) (style : ErrorStyle) (part : ModulePart)
    (source : String) : Prop where
  text : source.toList = part.named.flatMap NamedType.line
    ++ (part.endpoint.declarations.flatMap TypeDeclaration.lines
      ++ Code.charsOfAll 0 (part.endpoint.function style).fragments)
  ahead : NamedType.readAhead named source = part.named

namespace Document

variable {d : Document} {group name : String}

/-- The source of a part is written as such. -/
theorem writtenAs_render (style : ErrorStyle) {part : ModulePart}
    (hp : part ∈ d.api.moduleParts group) :
    part.WrittenAs d.api.named style (Code.render (part.fragments style)) := by
  have htext := part.toList_render style
  refine ⟨by rw [htext, Endpoint.charsOfAll_fragments], ?_⟩
  refine NamedType.readAhead_eq d.named_nodup isIdentifier_named (fun n hn => ?_) ?_ htext
  · exact mem_of_findNamed (needs_of_mem_named hp hn).1
  · rw [part.endpoint.head?_fragments style]
    decide

/-- What the sources of a group declare ahead is what its parts declare. -/
theorem flatMap_readAhead (d : Document) (style : ErrorStyle) (group : String) :
    (d.api.groupSource style group).flatMap (NamedType.readAhead d.api.named) =
      (d.api.moduleParts group).flatMap (·.named) := by
  rw [Api.groupSource, List.flatMap_map]
  exact List.flatMap_congr fun part hp => (writtenAs_render style hp).ahead

theorem zip_groupSource (d : Document) (style : ErrorStyle) (group : String) :
    (d.api.endpointsIn group).zip (d.api.groupSource style group) =
      (d.api.moduleParts group).map fun part =>
        (part.endpoint, Code.render (part.fragments style)) := by
  rw [← Api.endpoints_parts d.api [] (d.api.endpointsIn group)]
  exact List.zip_map'

/-- What an endpoint of a group needs has its line in the part of the first endpoint that needs
it. -/
theorem exists_source_of_needs (style : ErrorStyle) {n : NamedType} (hn : n ∈ d.api.named)
    {e : Endpoint} (he : e ∈ d.api.endpointsIn group) (hneeds : e.Needs d.api.named n.name) :
    ∃ before e source after,
      (d.api.endpointsIn group).zip (d.api.groupSource style group) =
        before ++ (e, source) :: after ∧
      n ∈ NamedType.readAhead d.api.named source ∧ e.Needs d.api.named n.name ∧
      ∀ p ∈ before, ¬ p.1.Needs d.api.named n.name := by
  obtain ⟨before, part, after, hparts, hnamed, hpart, hbefore⟩ := exists_part_of_needs hn he hneeds
  have hzip := zip_groupSource d style group
  rw [hparts, List.map_append, List.map_cons] at hzip
  have hp : part ∈ d.api.moduleParts group := by simp [hparts]
  refine ⟨_, _, _, _, hzip, ?_, hpart, fun p hp => ?_⟩
  · rwa [(writtenAs_render style hp).ahead]
  · obtain ⟨other, hother, rfl⟩ := List.mem_map.1 hp
    exact hbefore other hother

/-- The source of a group has a part for each endpoint, in their order.  A part begins with the
lines of named types, in front of the types of the endpoint.  A named type has its line in a part of
the group exactly when an endpoint of the group needs it, once, in the part of the first endpoint
that does.  An endpoint requires what it needs, and whatever the types in a part refer to has a line
in a part of the group, unless no definition has the name. -/
theorem moduleParts_selfContained (d : Document) (style : ErrorStyle) (group : String) :
    (∀ e ∈ d.api.endpoints, e.requires.Nodup ∧
      ∀ name, name ∈ e.requires ↔ e.Needs d.api.named name) ∧
    (d.api.moduleParts group).map (·.endpoint) = d.api.endpointsIn group ∧
    List.Forall₂ (ModulePart.WrittenAs d.api.named style) (d.api.moduleParts group)
      (d.api.groupSource style group) ∧
    (∀ n ∈ d.api.named,
      ((∃ source ∈ d.api.groupSource style group, n ∈ NamedType.readAhead d.api.named source) ↔
        ∃ e ∈ d.api.endpointsIn group, e.Needs d.api.named n.name) ∧
      ((∃ e ∈ d.api.endpointsIn group, e.Needs d.api.named n.name) →
        (((d.api.groupSource style group).flatMap (NamedType.readAhead d.api.named)).map
          (·.name)).count n.name = 1 ∧
        ∃ before e source after,
          (d.api.endpointsIn group).zip (d.api.groupSource style group) =
            before ++ (e, source) :: after ∧
          n ∈ NamedType.readAhead d.api.named source ∧ e.Needs d.api.named n.name ∧
          ∀ p ∈ before, ¬ p.1.Needs d.api.named n.name)) ∧
    ∀ part ∈ d.api.moduleParts group, ∀ t ∈ part.declarations, ∀ name ∈ t.type.references,
      (∃ source ∈ d.api.groupSource style group,
        ∃ n ∈ NamedType.readAhead d.api.named source, n.name = name) ∨
        (d.definitions.get? name = none ∧ name ∈ d.references.map Prod.fst) := by
  -- A part declares a named type exactly when its source does.
  have hsource : ∀ n, (∃ source ∈ d.api.groupSource style group,
      n ∈ NamedType.readAhead d.api.named source) ↔
        ∃ part ∈ d.api.moduleParts group, n ∈ part.named := by
    intro n
    rw [← List.mem_flatMap, flatMap_readAhead, List.mem_flatMap]
  refine ⟨fun e he => requires_spec he, Api.endpoints_parts _ _ _, ?_,
    fun n hn => ⟨(hsource n).trans ⟨?_, ?_⟩, ?_⟩, fun part hp t ht name hname => ?_⟩
  · rw [Api.groupSource, List.forall₂_map_right_iff, List.forall₂_same]
    exact fun part hp => writtenAs_render style hp
  · rintro ⟨part, hp, hn⟩
    exact ⟨part.endpoint, mem_endpoints_of_part hp, (needs_of_mem_named hp hn).2⟩
  · rintro ⟨e, he, hneeds⟩
    obtain ⟨before, part, after, hparts, hnamed, -⟩ := exists_part_of_needs hn he hneeds
    exact ⟨part, by simp [hparts], hnamed⟩
  · rintro ⟨e, he, hneeds⟩
    obtain ⟨before, part, after, hparts, hnamed, -⟩ := exists_part_of_needs hn he hneeds
    refine ⟨?_, exists_source_of_needs style hn he hneeds⟩
    have hmem : n ∈ (d.api.moduleParts group).flatMap (·.named) :=
      List.mem_flatMap.2 ⟨part, by simp [hparts], hnamed⟩
    rw [flatMap_readAhead]
    exact List.count_eq_one_of_mem (Api.nodup_parts _ _ _) (List.mem_map_of_mem hmem)
  · rcases needs_or_undefined hp ht hname with ⟨n, hfind, hneeds⟩ | hundefined
    · obtain rfl := name_of_findNamed hfind
      obtain ⟨before, p, after, hparts, hnamed, -⟩ := exists_part_of_needs
        (mem_of_findNamed hfind) (mem_endpoints_of_part hp) hneeds
      obtain ⟨source, hmem, hn⟩ := (hsource n).2 ⟨p, by simp [hparts], hnamed⟩
      exact .inl ⟨source, hmem, n, hn, rfl⟩
    · exact .inr hundefined

end Document

end SwaggerClient
