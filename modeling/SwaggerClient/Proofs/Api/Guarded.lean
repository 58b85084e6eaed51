import Mathlib.Data.Fintype.Card
import Mathlib.Data.Set.Finite.List
import SwaggerClient.Compilation
import SwaggerClient.Proofs.Api.Lowered
import SwaggerClient.Proofs.Api.Meaning
import SwaggerClient.Proofs.Schema.Bare
import SwaggerClient.TypeExpr.Render

/-!
# Guarded types

A named type is guarded when it does not come up again by way of unions, intersections and
references alone; only then the alias that declares it stands for a type.  A lowering
follows a definition until it meets the definition again, whatever stands between.  So the
named types are guarded exactly when no declared definition leads back to itself through
compositions and references alone.
-/

namespace SwaggerClient

open Relation

namespace Api

variable (api : Api)

/-- Whether the named type of a name has a bare reference to another name. -/
def Leads (name other : String) : Prop :=
  ∃ n, api.namedType? name = some n ∧ other ∈ n.type.bareReferences

/-- Whether no named type leads back to itself. -/
def Guarded : Prop :=
  ∀ n ∈ api.named, ¬ TransGen api.Leads n.name n.name

end Api

namespace Document

variable (d : Document)

/-- Whether a definition is what a name stands for: the definition of the name, or, when
there is none, the definition that is declared under it. -/
def StandsFor (name definition : String) : Prop :=
  if (d.definitions.get? name).isSome then definition = name
  else definition ∈ d.declarations.map Prod.fst ∧ d.declarations.typeName definition = name

/-- Whether a definition refers to another one, itself or in its composition. -/
def LeadsTo (definition other : String) : Prop :=
  ∃ node, d.definitions.get? definition = some node ∧
    ∃ name ∈ node.bareNames, d.StandsFor name other

variable {d} {definition other name : String} {node : SchemaNode} {enclosing : List String}

theorem standsFor_self (h : d.definitions.get? name = some node) : d.StandsFor name name := by
  simp [StandsFor, h]

theorem StandsFor.eq (hs : d.StandsFor name definition)
    (h : d.definitions.get? name = some node) : definition = name := by
  simpa [StandsFor, h] using hs

theorem standsFor_iff_of_none (h : d.definitions.get? name = none) :
    d.StandsFor name definition ↔
      definition ∈ d.declarations.map Prod.fst ∧ d.declarations.typeName definition = name := by
  simp [StandsFor, h]

/-! ## The named type of a declared definition -/

/-- The named type of a declared definition leads to the names of the bare targets in its
expansion. -/
theorem leads_typeName_iff (hd : definition ∈ d.declarations.map Prod.fst)
    (hnode : d.definitions.get? definition = some node) :
    d.api.Leads (d.declarations.typeName definition) name ↔
      ∃ target ∈ (d.definitions.expandNode [definition] node).bareReferences,
        d.declarations.nameOf target = name := by
  have hexpand : d.definitions.expandDefinition definition =
      d.definitions.expandNode [definition] node := by
    simp [Definitions.expandDefinition, hnode]
  simp [Api.Leads, Api.namedType?, findNamed_typeName hd, Definitions.namedType, hexpand,
    TypeExpr.bareReferences_mapReferences]

/-- A name that leads somewhere is the type name of a declared definition. -/
theorem exists_definition_of_leads (h : d.api.Leads name other) :
    ∃ definition ∈ d.declarations.map Prod.fst, d.declarations.typeName definition = name := by
  obtain ⟨n, hn, -⟩ := h
  have hname : n.name = name := name_of_findNamed hn
  have hmem : n ∈ d.api.named := mem_of_findNamed hn
  rw [api_named] at hmem
  obtain ⟨entry, he, rfl⟩ := List.mem_map.1 hmem
  refine ⟨entry.1, List.mem_map_of_mem he, ?_⟩
  rw [d.declarations_sound.typeName_eq he]
  exact hname

/-! ## From names to definitions -/

/-- Whether a target has the type name of a declared definition. -/
def Denotes (d : Document) (target : Target) (definition : String) : Prop :=
  definition ∈ d.declarations.map Prod.fst ∧
    d.declarations.nameOf target = d.declarations.typeName definition

/-- What a bare target in the type of a name denotes is where the name leads to. -/
theorem exists_standsFor_of_follow {target : Target} (hknown : Target.Known d target)
    (htarget : d.Denotes target other) (bound : Nat)
    (h : target ∈ (d.definitions.follow bound enclosing name).bareReferences) :
    ∃ first, d.StandsFor name first ∧ ReflTransGen d.LeadsTo first other := by
  induction bound using Nat.strongRecOn generalizing enclosing name with
  | ind bound ih =>
    have hfollow := d.definitions.bareReferences_follow bound enclosing name
    cases hnode : d.definitions.get? name with
    | none =>
      simp only [hnode] at hfollow
      rw [hfollow, List.mem_singleton] at h
      subst h
      exact ⟨other, (standsFor_iff_of_none hnode).2 ⟨htarget.1, htarget.2.symm⟩, .refl⟩
    | some node =>
      simp only [hnode] at hfollow
      rcases hfollow with hself | ⟨rest, rfl, hrest⟩
      · rw [hself, List.mem_singleton] at h
        subst h
        obtain rfl : name = other :=
          d.declarations_sound.eq_of_typeName_eq hknown htarget.1 htarget.2
        exact ⟨name, standsFor_self hnode, .refl⟩
      · rw [hrest] at h
        obtain ⟨ref, href, hbare⟩ := List.mem_flatMap.1 h
        obtain ⟨first, hfirst, hpath⟩ := ih rest (Nat.lt_succ_self rest) hbare
        exact ⟨name, standsFor_self hnode, hpath.head ⟨node, hnode, ref, href, hfirst⟩⟩

/-- A step from one named type to another is a path from one definition to the other. -/
theorem transGen_leadsTo_of_leads (hd : definition ∈ d.declarations.map Prod.fst)
    (ho : other ∈ d.declarations.map Prod.fst)
    (h : d.api.Leads (d.declarations.typeName definition) (d.declarations.typeName other)) :
    TransGen d.LeadsTo definition other := by
  have hentry := Declarations.mem_typeName hd
  obtain ⟨node, hnode⟩ := exists_definition hentry
  obtain ⟨target, hbare, hname⟩ := (leads_typeName_iff hd hnode).1 h
  have hknown : Target.Known d target :=
    known_of_declared hentry hnode target (TypeExpr.bareReferences_subset _ hbare)
  rw [Definitions.expandNode, SchemaNode.bareReferences_expand] at hbare
  obtain ⟨ref, href, hbare⟩ := List.mem_flatMap.1 hbare
  obtain ⟨first, hfirst, hpath⟩ := exists_standsFor_of_follow hknown ⟨ho, hname⟩ _ hbare
  exact TransGen.head' ⟨node, hnode, ref, href, hfirst⟩ hpath

/-- So is a path from one named type to another. -/
theorem transGen_leadsTo_of_transGen (hd : definition ∈ d.declarations.map Prod.fst)
    (h : TransGen d.api.Leads (d.declarations.typeName definition) name) :
    ∀ other ∈ d.declarations.map Prod.fst, d.declarations.typeName other = name →
      TransGen d.LeadsTo definition other := by
  induction h with
  | single h =>
    rintro other ho rfl
    exact transGen_leadsTo_of_leads hd ho h
  | tail _ hstep ih =>
    rintro other ho rfl
    obtain ⟨middle, hm, rfl⟩ := exists_definition_of_leads hstep
    exact (ih middle hm rfl).trans (transGen_leadsTo_of_leads hm ho hstep)

/-! ## From definitions to names -/

/-- Whether a definition begins no infinite path. -/
def Settled (d : Document) (definition : String) : Prop :=
  Acc (Function.swap d.LeadsTo) definition

/-- A definition that leads to itself begins an infinite path. -/
theorem Settled.not_transGen (h : d.Settled definition) :
    ¬ TransGen d.LeadsTo definition definition := by
  have hacc : Acc (TransGen (Function.swap d.LeadsTo)) definition := Acc.transGen h
  rw [← transGen_swap]
  clear h
  induction hacc with
  | intro definition _ ih => exact fun hcycle => ih definition hcycle hcycle

theorem settled_of_bareNames (hnode : d.definitions.get? definition = some node)
    (h : ∀ ref ∈ node.bareNames, ∀ other, d.StandsFor ref other → d.Settled other) :
    d.Settled definition := by
  refine Acc.intro definition fun other hstep => ?_
  obtain ⟨node', hnode', ref, href, hs⟩ := hstep
  obtain rfl : node = node' := Option.some.inj (hnode.symm.trans hnode')
  exact h ref href other hs

/-- A name stands for a settled definition when everything that the bare targets in its
type denote is settled. -/
theorem settled_of_follow (bound : Nat) (enclosing : List String)
    (hknown : ∀ target ∈ (d.definitions.follow bound enclosing name).bareReferences,
      Target.Known d target)
    (hsettled : ∀ target ∈ (d.definitions.follow bound enclosing name).bareReferences,
      ∀ other, d.Denotes target other → d.Settled other)
    (hs : d.StandsFor name definition) : d.Settled definition := by
  induction bound using Nat.strongRecOn generalizing enclosing name definition with
  | ind bound ih =>
    have hfollow := d.definitions.bareReferences_follow bound enclosing name
    cases hnode : d.definitions.get? name with
    | none =>
      simp only [hnode] at hfollow
      obtain ⟨hd, hname⟩ := (standsFor_iff_of_none hnode).1 hs
      exact hsettled (.undefined name) (by simp [hfollow]) definition ⟨hd, hname.symm⟩
    | some node =>
      simp only [hnode] at hfollow
      obtain rfl : definition = name := hs.eq hnode
      rcases hfollow with hself | ⟨rest, rfl, hrest⟩
      · have hbare : Target.enclosing definition ∈
            (d.definitions.follow bound enclosing definition).bareReferences := by simp [hself]
        exact hsettled _ hbare definition ⟨hknown _ hbare, rfl⟩
      · rw [hrest] at hknown hsettled
        refine settled_of_bareNames hnode fun ref href other hs' => ?_
        refine ih rest (Nat.lt_succ_self rest) (definition :: enclosing) ?_ ?_ hs'
        · exact fun target hbare => hknown target (List.mem_flatMap.2 ⟨ref, href, hbare⟩)
        · exact fun target hbare => hsettled target (List.mem_flatMap.2 ⟨ref, href, hbare⟩)

/-- Guarded types can be gone through from those that lead to no other one. -/
theorem wellFounded_leads (h : d.api.Guarded) :
    WellFounded fun other definition : {name // name ∈ d.declarations.map Prod.fst} =>
      TransGen d.api.Leads (d.declarations.typeName definition)
        (d.declarations.typeName other) := by
  have hfinite : Finite {name // name ∈ d.declarations.map Prod.fst} :=
    (List.finite_toSet (d.declarations.map Prod.fst)).to_subtype
  have htrans : IsTrans {name // name ∈ d.declarations.map Prod.fst} fun other definition =>
      TransGen d.api.Leads (d.declarations.typeName definition)
        (d.declarations.typeName other) := ⟨fun _ _ _ hab hbc => hbc.trans hab⟩
  have hirrefl : Std.Irrefl fun other definition : {name // name ∈ d.declarations.map Prod.fst} =>
      TransGen d.api.Leads (d.declarations.typeName definition)
        (d.declarations.typeName other) :=
    ⟨fun definition => h _ (mem_of_findNamed (findNamed_typeName definition.2))⟩
  exact Finite.wellFounded_of_trans_of_irrefl _

/-- When the named types are guarded, every declared definition is settled. -/
theorem settled_of_guarded (h : d.api.Guarded)
    (definition : {name // name ∈ d.declarations.map Prod.fst}) : d.Settled definition := by
  induction definition using (wellFounded_leads h).induction with
  | h definition ih =>
    have hentry := Declarations.mem_typeName definition.2
    obtain ⟨node, hnode⟩ := exists_definition hentry
    refine settled_of_bareNames hnode fun ref href other hs => ?_
    have hbare : (d.definitions.follow d.definitions.length [definition.1] ref).bareReferences ⊆
        (d.definitions.expandNode [definition.1] node).bareReferences := by
      intro target htarget
      rw [Definitions.expandNode, SchemaNode.bareReferences_expand]
      exact List.mem_flatMap.2 ⟨ref, href, htarget⟩
    refine settled_of_follow d.definitions.length [definition.1] ?_ ?_ hs
    · intro target htarget
      exact known_of_declared hentry hnode target
        (TypeExpr.bareReferences_subset _ (hbare htarget))
    · intro target htarget last hlast
      refine ih ⟨last, hlast.1⟩ (TransGen.single ?_)
      exact (leads_typeName_iff definition.2 hnode).2 ⟨target, hbare htarget, hlast.2⟩

/-- The named types of a document are guarded exactly when no declared definition leads
back to itself through references and compositions alone. -/
theorem guarded_iff (d : Document) :
    d.api.Guarded ↔
      ∀ definition ∈ d.declarations.map Prod.fst, ¬ TransGen d.LeadsTo definition definition := by
  constructor
  · intro h definition hd
    exact (settled_of_guarded h ⟨definition, hd⟩).not_transGen
  · intro h n hn hcycle
    rw [api_named] at hn
    obtain ⟨entry, he, rfl⟩ := List.mem_map.1 hn
    have hd : entry.1 ∈ d.declarations.map Prod.fst := List.mem_map_of_mem he
    have hname : d.declarations.typeName entry.1 = entry.2 := d.declarations_sound.typeName_eq he
    have hcycle : TransGen d.api.Leads (d.declarations.typeName entry.1) entry.2 :=
      hname.symm ▸ hcycle
    exact h entry.1 hd (transGen_leadsTo_of_transGen hd hcycle entry.1 hd hname)

/-- A document with a definition that is a choice between a string and itself. -/
def valueDocument : Document where
  paths := [("/value",
    [(.get, { responses := [("200", { schema := some (referenceTo "Value") })] })])]
  definitions := [("Value", {
    anyOf := [{ type := some (.single .string) }, referenceTo "Value"] })]

/-- A named type may lead back to itself though no lint reports anything. -/
theorem valueDocument_not_guarded :
    (∀ lint ∈ defaultLints, lint.check valueDocument = []) ∧
      valueDocument.api.named.map (fun n => (n.name, n.type.render)) =
        [("Value", "string|Value")] ∧
      ¬ valueDocument.api.Guarded := by
  have hlint : ∀ lint ∈ defaultLints, lint.check valueDocument = [] := by
    simp only [defaultLints, List.forall_mem_cons]
    decide +kernel
  have hnamed : valueDocument.api.named =
      [⟨"Value", .union [.primitive .string, .reference "Value"]⟩] := by
    rfl
  refine ⟨hlint, ?_, fun h => ?_⟩
  · rw [hnamed]
    decide +kernel
  · refine h ⟨"Value", .union [.primitive .string, .reference "Value"]⟩ (by simp [hnamed]) ?_
    refine .single ⟨⟨"Value", .union [.primitive .string, .reference "Value"]⟩, ?_, ?_⟩
    · simp [Api.namedType?, findNamed, hnamed]
    · simp [TypeExpr.bareReferences]

end Document

end SwaggerClient
