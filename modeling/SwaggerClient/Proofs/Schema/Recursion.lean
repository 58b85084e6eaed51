import Mathlib.Data.List.Cycle
import SwaggerClient.Proofs.Schema.Discipline

/-!
# Recursive definitions

The definitions that are declared are those that a lowering meets inside themselves.  Each of
them lies on a cycle of the graph of definitions, since the definitions in progress are a path
in it.  And no cycle that a lowering can come to is missed: the way to it can be taken without
meeting a definition twice, and the way around it ends at a definition in progress.
-/

namespace SwaggerClient

open Relation

/-! ## Cycles -/

section Cycles

variable {α : Type} {r : α → α → Prop} {c : Cycle α} {a : α}

/-- On a cycle every element is followed by one of the cycle. -/
theorem exists_next_of_chain (hc : c.Chain r) (ha : a ∈ c) : ∃ b ∈ c, r a b := by
  induction c using Quotient.inductionOn' with
  | h l =>
    obtain ⟨front, back, rfl⟩ := List.append_of_mem (Cycle.mem_coe_iff.1 ha)
    have hrotated : (↑(front ++ a :: back) : Cycle α) = ↑(a :: (back ++ front)) :=
      Cycle.coe_eq_coe.2 List.isRotated_append
    change (↑(front ++ a :: back) : Cycle α).Chain r at hc
    change ∃ b ∈ (↑(front ++ a :: back) : Cycle α), r a b
    rw [hrotated] at hc ⊢
    rw [Cycle.chain_coe_cons] at hc
    cases hrest : back ++ front with
    | nil => exact ⟨a, by simp, by simpa [hrest] using hc⟩
    | cons b rest =>
      rw [hrest, List.cons_append, List.isChain_cons_cons] at hc
      exact ⟨b, by simp, hc.1⟩

/-- What leads back to itself lies on a cycle. -/
theorem exists_cycle_of_transGen (h : TransGen r a a) : ∃ c : Cycle α, c.Chain r ∧ a ∈ c := by
  obtain ⟨b, hab, hba⟩ := TransGen.head'_iff.1 h
  obtain ⟨l, hchain, hlast⟩ := List.exists_isChain_cons_of_relationReflTransGen hba
  have hsplit : (b :: l).dropLast ++ [a] = b :: l := by
    rw [← hlast]
    exact List.dropLast_append_getLast _
  refine ⟨↑(a :: (b :: l).dropLast), ?_, by simp⟩
  rw [Cycle.chain_coe_cons, hsplit]
  exact List.isChain_cons_cons.2 ⟨hab, hchain⟩

end Cycles

/-- Whether a node leads to a name, itself or through the definitions of names. -/
def SchemaNode.Reaches (definitions : Definitions) (node : SchemaNode) (name : String) : Prop :=
  ∃ ref, node.Consults ref ∧ ReflTransGen definitions.Consults ref name

namespace Definitions

variable {definitions : Definitions} {bound : Nat} {enclosing : List String}
  {definition name : String} {node : SchemaNode}

/-! ## What is met again lies on a cycle -/

/-- A definition that the expansion of a name meets again comes behind the name.  It was in
progress before, or else it leads back to itself. -/
theorem reaches_of_enclosing_mem_follow (hr : definitions.Room bound enclosing)
    (h : .enclosing definition ∈ (definitions.follow bound enclosing name).references) :
    ReflTransGen definitions.Consults name definition ∧
      (definition ∈ enclosing ∨ TransGen definitions.Consults definition definition) := by
  induction bound using Nat.strongRecOn generalizing enclosing name with
  | ind bound ih =>
    cases hnode : definitions.get? name with
    | none => simp [follow_of_none _ _ hnode, TypeExpr.references] at h
    | some node =>
      by_cases hm : name ∈ enclosing
      · rw [follow_of_mem _ _ hnode hm] at h
        obtain rfl : definition = name := by simpa [TypeExpr.references] using h
        exact ⟨.refl, .inl hm⟩
      · obtain ⟨rest, rfl, hrest⟩ := hr.enter hnode hm
        rw [follow_succ _ _ hnode hm] at h
        obtain ⟨ref, href, h⟩ := (SchemaNode.mem_references_expand_iff _ node).1 h
        obtain ⟨hpath, hback⟩ := ih rest (Nat.lt_succ_self rest) hrest h
        have hstep : definitions.Consults name ref := ⟨node, hnode, href⟩
        refine ⟨hpath.head hstep, ?_⟩
        rcases hback with hback | hback
        · rcases List.mem_cons.1 hback with rfl | hback
          · exact .inr (TransGen.head' hstep hpath)
          · exact .inl hback
        · exact .inr hback

/-- A definition that the expansion of a node meets again comes behind the node and leads back
to itself. -/
theorem reaches_of_enclosing_mem_expandNode
    (h : .enclosing definition ∈ (definitions.expandNode [] node).references) :
    node.Reaches definitions definition ∧
      TransGen definitions.Consults definition definition := by
  obtain ⟨ref, href, h⟩ := (SchemaNode.mem_references_expand_iff _ node).1 h
  obtain ⟨hpath, hback⟩ := reaches_of_enclosing_mem_follow (.nil definitions) h
  exact ⟨⟨ref, href, hpath⟩, hback.resolve_left List.not_mem_nil⟩

/-- So does one that the expansion of a definition in itself meets again. -/
theorem reaches_of_enclosing_mem_expandDefinition
    (h : .enclosing definition ∈ (definitions.expandDefinition name).references) :
    TransGen definitions.Consults name definition ∧
      TransGen definitions.Consults definition definition := by
  unfold expandDefinition at h
  split at h
  next node hnode =>
    obtain ⟨ref, href, h⟩ := (SchemaNode.mem_references_expand_iff _ node).1 h
    obtain ⟨hpath, hback⟩ := reaches_of_enclosing_mem_follow (.singleton hnode) h
    have hname : TransGen definitions.Consults name definition :=
      TransGen.head' ⟨node, hnode, href⟩ hpath
    refine ⟨hname, ?_⟩
    rcases hback with hback | hback
    · obtain rfl : definition = name := by simpa using hback
      exact hname
    · exact hback
  next => simp [TypeExpr.references, TypeExpr.unknown] at h

/-! ## Every cycle is met -/

/-- A target that the expansion of a name has, whatever is in progress, is a target of all names
that lead to this one by a path free of the definitions in progress. -/
theorem exists_target_of_path {goal : Target → Prop} {last : String}
    (hlast : ∀ bound enclosing, definitions.Room bound enclosing →
      ∃ target ∈ (definitions.follow bound enclosing last).references, goal target)
    (path : List String) (hpath : (name :: path).IsChain definitions.Consults)
    (hend : (name :: path).getLast (List.cons_ne_nil _ _) = last)
    (hr : definitions.Room bound enclosing) (hfree : ∀ ref ∈ name :: path, ref ∉ enclosing) :
    ∃ target ∈ (definitions.follow bound enclosing name).references, goal target := by
  -- The induction is on the length: a path that comes back to its start is cut short.
  induction hlength : path.length using Nat.strongRecOn generalizing name path bound enclosing with
  | ind length ih =>
    subst hlength
    rcases path with _ | ⟨next, path⟩
    · obtain rfl : name = last := by simpa using hend
      exact hlast bound enclosing hr
    · by_cases hback : name ∈ next :: path
      · obtain ⟨front, back, hsplit⟩ := List.append_of_mem hback
        have hsuffix : name :: back <:+ name :: next :: path :=
          ⟨name :: front, by rw [hsplit, List.cons_append]⟩
        have hshorter : back.length < (next :: path).length := by
          rw [hsplit, List.length_append, List.length_cons]
          omega
        refine ih back.length hshorter back (hpath.suffix hsuffix) ?_ hr
          (fun ref href => hfree ref (hsuffix.subset href)) rfl
        rw [← hend]
        simp [hsplit]
      · obtain ⟨⟨node, hnode, hnext⟩, hrest⟩ := List.isChain_cons_cons.1 hpath
        have hm : name ∉ enclosing := hfree name List.mem_cons_self
        obtain ⟨bound, rfl, hroom⟩ := hr.enter hnode hm
        have hfree' : ∀ ref ∈ next :: path, ref ∉ name :: enclosing := by
          intro ref href
          rw [List.mem_cons, not_or]
          exact ⟨fun heq => hback (heq ▸ href), hfree ref (List.mem_cons_of_mem _ href)⟩
        obtain ⟨target, htarget, hgoal⟩ := ih path.length (Nat.lt_succ_self _) path hrest
          (by simpa using hend) hroom hfree' rfl
        refine ⟨target, ?_, hgoal⟩
        rw [follow_succ _ _ hnode hm]
        exact (SchemaNode.mem_references_expand_iff _ node).2 ⟨next, hnext, htarget⟩

/-- The expansion of a definition on a cycle meets a definition of the cycle again. -/
theorem exists_enclosing_of_cycle {c : Cycle String} (hc : c.Chain definitions.Consults)
    (hname : name ∈ c) (hr : definitions.Room bound enclosing) :
    ∃ target ∈ (definitions.follow bound enclosing name).references,
      ∃ definition ∈ c, target = .enclosing definition := by
  induction bound using Nat.strongRecOn generalizing enclosing name with
  | ind bound ih =>
    obtain ⟨next, hnext, node, hnode, hconsults⟩ := exists_next_of_chain hc hname
    by_cases hm : name ∈ enclosing
    · rw [follow_of_mem _ _ hnode hm]
      exact ⟨.enclosing name, by simp [TypeExpr.references], name, hname, rfl⟩
    · obtain ⟨rest, rfl, hrest⟩ := hr.enter hnode hm
      obtain ⟨target, htarget, hmet⟩ := ih rest (Nat.lt_succ_self rest) hnext hrest
      rw [follow_succ _ _ hnode hm]
      refine ⟨target, (SchemaNode.mem_references_expand_iff _ node).2 ?_, hmet⟩
      exact ⟨next, hconsults, htarget⟩

/-- The expansion of a node meets a definition again on every cycle that the node leads to. -/
theorem exists_enclosing_of_reaches {c : Cycle String} (hc : c.Chain definitions.Consults)
    (hname : name ∈ c) (h : node.Reaches definitions name) :
    ∃ definition ∈ c, .enclosing definition ∈ (definitions.expandNode [] node).references := by
  obtain ⟨ref, href, hreach⟩ := h
  obtain ⟨path, hpath, hend⟩ := List.exists_isChain_cons_of_relationReflTransGen hreach
  obtain ⟨target, htarget, definition, hd, rfl⟩ :=
    exists_target_of_path (fun _ _ => exists_enclosing_of_cycle hc hname) path hpath hend
      (.nil definitions) fun _ _ => List.not_mem_nil
  exact ⟨definition, hd, (SchemaNode.mem_references_expand_iff _ node).2 ⟨ref, href, htarget⟩⟩

end Definitions

/-! ## Calls -/

/-- The types in an answer. -/
def LoweringAnswer.types : LoweringAnswer → List (TypeExpr String)
  | .type t => [t]
  | .namedTypes types => types.map (·.type)

namespace Answered

variable {definitions : Definitions} {declared last : Declarations} {calls : List LoweringCall}
  {answers : List (LoweringAnswer × Lowering)}

theorem prefix_last (h : Answered definitions declared calls answers last) : declared <+: last := by
  induction h with
  | nil => exact List.prefix_rfl
  | @cons _ _ _ call _ _ _ h _ ih =>
    cases call with
    | lower node =>
      rw [h.1] at ih
      exact (Declarations.prefix_declareTargets _ _).trans ih
    | namedTypes => exact h.1.prefix_later.trans ih

/-- The targets of every node that is lowered are declared in the end. -/
theorem covers (h : Answered definitions declared calls answers last) {node : Option SchemaNode}
    (hnode : .lower node ∈ calls) : last.Covers (definitions.expandOptional node).references := by
  induction h with
  | nil => cases hnode
  | cons h hrest ih =>
    rcases List.mem_cons.1 hnode with rfl | hnode
    · refine Declarations.Covers.mono ?_ hrest.prefix_last
      rw [h.1]
      exact Declarations.covers_declareTargets _ _
    · exact ih hnode

/-- What holds of the definitions declared at first, of the targets of the nodes that are
lowered, and with a definition of the targets in its expansion, holds of all that are declared
in the end. -/
theorem forall_mem {p : String → Prop} (h : Answered definitions declared calls answers last)
    (hstart : ∀ definition ∈ declared.map Prod.fst, p definition)
    (hnode : ∀ node, .lower node ∈ calls → ∀ definition,
      .enclosing definition ∈ (definitions.expandOptional node).references → p definition)
    (hp : ∀ definition, p definition → ∀ other,
      .enclosing other ∈ (definitions.expandDefinition definition).references → p other) :
    ∀ definition ∈ last.map Prod.fst, p definition := by
  induction h with
  | nil => exact hstart
  | @cons _ later _ call calls _ _ h _ ih =>
    refine ih ?_ fun node hn => hnode node (List.mem_cons_of_mem _ hn)
    cases call with
    | lower node =>
      intro definition hd
      rw [h.1] at hd
      rcases Declarations.mem_declareTargets hd with hd | hd
      · exact hstart definition hd
      · exact hnode node List.mem_cons_self definition hd
    | namedTypes => exact h.1.forall_mem hp hstart

/-- When nothing is declared in the end, the types in the answers are the expansions of the nodes
that are lowered. -/
theorem exists_of_mem_types (h : Answered definitions declared calls answers [])
    {entry : LoweringAnswer × Lowering} (he : entry ∈ answers) {type : TypeExpr String}
    (ht : type ∈ entry.1.types) :
    ∃ node, .lower node ∈ calls ∧
      type = (definitions.expandOptional node).mapReferences (Declarations.nameOf []) := by
  generalize hlast : ([] : Declarations) = last at h
  induction h with
  | nil => cases he
  | @cons _ later _ call calls _ _ h hrest ih =>
    subst hlast
    obtain rfl : later = [] := List.prefix_nil.1 hrest.prefix_last
    rcases List.mem_cons.1 he with rfl | he
    · cases call with
      | lower node =>
        rw [h.2] at ht
        exact ⟨node, List.mem_cons_self, List.mem_singleton.1 ht⟩
      | namedTypes =>
        rw [h.2] at ht
        cases ht
    · obtain ⟨node, hn, htype⟩ := ih he rfl
      exact ⟨node, List.mem_cons_of_mem _ hn, htype⟩

/-- Every definition that is declared comes behind a node that is lowered, and leads back to
itself. -/
theorem recursive (h : Answered definitions [] calls answers last) :
    ∀ definition ∈ last.map Prod.fst,
      (∃ node, .lower (some node) ∈ calls ∧ node.Reaches definitions definition) ∧
        TransGen definitions.Consults definition definition := by
  refine h.forall_mem (by simp) ?_ ?_
  · rintro (_ | node) hn definition hd
    · simp [Definitions.expandOptional, TypeExpr.references, TypeExpr.unknown] at hd
    · obtain ⟨hreaches, hback⟩ := Definitions.reaches_of_enclosing_mem_expandNode hd
      exact ⟨⟨node, hn, hreaches⟩, hback⟩
  · rintro definition ⟨⟨node, hn, ref, href, hpath⟩, -⟩ other ho
    obtain ⟨hother, hback⟩ := Definitions.reaches_of_enclosing_mem_expandDefinition ho
    exact ⟨⟨node, hn, ref, href, hpath.trans hother.to_reflTransGen⟩, hback⟩

/-- A definition of every cycle that a node leads to is declared when the node is lowered. -/
theorem exists_declared_of_cycle (h : Answered definitions declared calls answers last)
    {node : SchemaNode} (hn : .lower (some node) ∈ calls) {c : Cycle String}
    (hc : c.Chain definitions.Consults) {name : String} (hname : name ∈ c)
    (hreaches : node.Reaches definitions name) : ∃ name ∈ c, name ∈ last.map Prod.fst := by
  obtain ⟨definition, hd, ht⟩ := Definitions.exists_enclosing_of_reaches hc hname hreaches
  exact ⟨definition, hd, h.covers hn definition ht⟩

/-- When nothing is declared, no type in an answer refers to a name that has a definition. -/
theorem not_mem_keys (h : Answered definitions declared calls answers [])
    {entry : LoweringAnswer × Lowering} (he : entry ∈ answers) {type : TypeExpr String}
    (ht : type ∈ entry.1.types) {name : String} (hname : name ∈ type.references) :
    name ∉ definitions.keys := by
  obtain ⟨node, hn, rfl⟩ := h.exists_of_mem_types he ht
  rw [TypeExpr.references_mapReferences] at hname
  obtain ⟨target, htarget, rfl⟩ := List.mem_map.1 hname
  cases target with
  | enclosing definition => simpa using h.covers hn definition htarget
  | undefined name =>
    cases node with
    | none => simp [Definitions.expandOptional, TypeExpr.references, TypeExpr.unknown] at htarget
    | some node =>
      have hleaves := definitions.leaves_expandNode (p := fun _ => True)
        (fun _ _ _ _ _ _ => trivial) (fun _ _ => trivial) htarget
      exact Dictionary.get?_eq_none_iff.1 hleaves.1

end Answered

/-- Calls one after the other on a fresh lowering declare definitions on cycles only, and on every
cycle that a lowered node leads to they declare a definition.  So when no such node leads to a
cycle, nothing is declared, and no type refers to a name that has a definition. -/
theorem recursion_detected (definitions : Definitions) (calls : List LoweringCall) :
    ∃ answers l, (answerAll definitions calls).run ({} : Lowering) = some (answers, l) ∧
      (∀ name ∈ l.declared.map Prod.fst,
        ∃ c : Cycle String, c.Chain definitions.Consults ∧ name ∈ c) ∧
      (∀ node, .lower (some node) ∈ calls →
        ∀ c : Cycle String, c.Chain definitions.Consults →
          (∃ name ∈ c, node.Reaches definitions name) →
            ∃ name ∈ c, name ∈ l.declared.map Prod.fst) ∧
      ((∀ node, .lower (some node) ∈ calls →
          ∀ c : Cycle String, c.Chain definitions.Consults →
            ∀ name ∈ c, ¬ node.Reaches definitions name) →
        l.declared = [] ∧
          ∀ entry ∈ answers, ∀ type ∈ entry.1.types, ∀ name ∈ type.references,
            name ∉ definitions.keys) := by
  obtain ⟨answers, last, hrun, hanswered, -⟩ := answered_fresh definitions calls
  refine ⟨answers, ⟨[], last⟩, hrun, fun name hname => ?_, ?_, fun hnone => ?_⟩
  · exact exists_cycle_of_transGen (hanswered.recursive name hname).2
  · rintro node hn c hc ⟨name, hname, hreaches⟩
    exact hanswered.exists_declared_of_cycle hn hc hname hreaches
  · obtain rfl : last = [] := by
      by_contra hne
      obtain ⟨entry, rest, rfl⟩ := List.exists_cons_of_ne_nil hne
      obtain ⟨⟨node, hn, hreaches⟩, hback⟩ := hanswered.recursive entry.1 (by simp)
      obtain ⟨c, hc, hname⟩ := exists_cycle_of_transGen hback
      exact hnone node hn c hc entry.1 hname hreaches
    exact ⟨rfl, fun entry he type ht name hname => hanswered.not_mem_keys he ht hname⟩

end SwaggerClient
