import SwaggerClient.Proofs.Schema.Expansion

/-!
# What a lowering gives

A lowering gives the expansion of a node with its targets named, declares those
targets in order, and leaves the definitions in progress as they were.  It does so
whatever else its state holds, and its bounds are never reached.
-/

namespace SwaggerClient

open LoweringState (lowering replace)

/-! ## Lists of nodes -/

section Lists

variable {σ : Type} {follow : String → LoweringM σ (TypeExpr String)}

theorem lowerAll_eq (nodes : List SchemaNode) :
    lowerAll follow nodes = nodes.mapM (SchemaNode.lower follow) := by
  induction nodes with
  | nil => rfl
  | cons node nodes ih => simp [lowerAll, ih]

theorem lowerProperties_eq (required : List String) (properties : List (String × SchemaNode)) :
    lowerProperties follow required properties = properties.mapM fun p => do
      let type ← p.2.lower follow
      return ⟨p.1, !required.contains p.1, memberDoc p.2.describe, type⟩ := by
  induction properties with
  | nil => rfl
  | cons p properties ih => simp [lowerProperties, ih]

/-- Lowers a kind of a node. -/
def SchemaNode.lowerKind (follow : String → LoweringM σ (TypeExpr String)) (node : SchemaNode)
    (kind : Kind) : LoweringM σ (TypeExpr String) :=
  kind.lower (lowerProperties follow node.required (node.properties.getD []))
    (match node.items with
     | some item => item.lower follow
     | none => pure .unknown)
    (match node.additionalSchema with
     | some value => do
       let type ← value.lower follow
       return some type
     | none => pure none)

/-- How a node is lowered, by its form. -/
theorem SchemaNode.lower_eq (node : SchemaNode) :
    node.lower follow =
      match node.form with
      | .reference name => follow name
      | .allOf nodes => do
        let types ← lowerAll follow nodes
        return .intersection types
      | .anyOf nodes => do
        let types ← lowerAll follow nodes
        return .union types
      | .values values => return .literals (values.map Json.literal)
      | .kinds [kind] => node.lowerKind follow kind
      | .kinds kinds => do
        let types ← kinds.mapM (node.lowerKind follow)
        return .union types := by
  obtain ⟨type, ref, allOf, anyOf, values, properties, items, required, additional,
    description⟩ := node
  cases ref with
  | some pointer => simp [form, SchemaNode.lower]
  | none =>
    cases allOf with
    | cons n ns => simp [form, SchemaNode.lower, lowerAll]
    | nil =>
      cases anyOf with
      | cons n ns => simp [form, SchemaNode.lower, lowerAll]
      | nil =>
        cases values with
        | cons v vs => simp [form, SchemaNode.lower]
        | nil =>
          cases properties <;> cases items <;> rcases additional with _ | (_ | _) <;>
            simp only [SchemaNode.lower, form, SchemaNode.kinds, ne_eq, not_true_eq_false,
              if_false] <;>
            generalize kindsOf type _ _ = kinds <;>
            rcases kinds with _ | ⟨kind, _ | ⟨kind', kinds⟩⟩ <;> rfl

end Lists

/-! ## Steps -/

namespace Lowering

/-- What a lowering does to what is known: it begins with a definition that is not in
progress, is done with the innermost one, or declares one that is in progress. -/
inductive Step (definitions : Definitions) : Lowering → Lowering → Prop
  | enter {l : Lowering} {definition : String} (hkey : definition ∈ definitions.keys)
      (hnew : definition ∉ l.inProgress) :
      Step definitions l ⟨definition :: l.inProgress, l.declared⟩
  | leave {definition : String} {enclosing : List String} {declared : Declarations} :
      Step definitions ⟨definition :: enclosing, declared⟩ ⟨enclosing, declared⟩
  | declare {l : Lowering} {definition : String} (hmem : definition ∈ l.inProgress) :
      Step definitions l ⟨l.inProgress, l.declared.declare definition⟩

/-- What holds of a lowering at every moment: no definition is in progress twice, all
of them are there, and so are the declared ones. -/
structure Sound (definitions : Definitions) (l : Lowering) : Prop where
  nodup : l.inProgress.Nodup
  subset : l.inProgress ⊆ definitions.keys
  declared : Declarations.Sound definitions l.declared

variable {definitions : Definitions} {l l' : Lowering}

theorem Sound.step (h : l.Sound definitions) (hs : l.Step definitions l') :
    l'.Sound definitions := by
  cases hs with
  | enter hkey hnew =>
    exact ⟨List.nodup_cons.2 ⟨hnew, h.nodup⟩, List.cons_subset.2 ⟨hkey, h.subset⟩, h.declared⟩
  | leave =>
    exact ⟨(List.nodup_cons.1 h.nodup).2, (List.cons_subset.1 h.subset).2, h.declared⟩
  | declare hmem => exact ⟨h.nodup, h.subset, h.declared.declare (h.subset hmem)⟩

theorem Step.prefix_declared (hs : l.Step definitions l') : l.declared <+: l'.declared := by
  cases hs with
  | enter | leave => exact List.prefix_rfl
  | declare => exact Declarations.prefix_declare _ _

end Lowering

/-! ## Computations that lower -/

variable {σ : Type} [LoweringState σ] {definitions : Definitions} {I : σ → Prop}
  {α β γ : Type} {enclosing : List String}

/-- An invariant of the states of a lowering: it holds of sound lowerings only, and
every step keeps it. -/
structure Invariant (definitions : Definitions) (I : σ → Prop) : Prop where
  sound : ∀ {s}, I s → (lowering s).Sound definitions
  step : ∀ {s l}, I s → (lowering s).Step definitions l → I (replace l s)

@[simp] theorem lowering_self (l : Lowering) : lowering l = l :=
  rfl

@[simp] theorem replace_self (l l' : Lowering) : replace l l' = l :=
  rfl

theorem Lowering.invariant_sound (definitions : Definitions) :
    Invariant definitions (Lowering.Sound definitions) :=
  ⟨fun h => h, fun h hs => h.step hs⟩

/-- Nothing is known at first. -/
theorem Lowering.Sound.start (definitions : Definitions) : Lowering.Sound definitions {} :=
  ⟨by simp, by simp, Declarations.Sound.nil⟩

/-- A computation inside some definitions keeps an invariant, declares targets, leaves
those definitions in progress, and gives a value made of the names of targets, the
same in all later declarations. -/
def Lowers (I : σ → Prop) (enclosing : List String) (x : LoweringM σ α) (targets : List Target)
    (value : (Target → String) → α) : Prop :=
  ∀ s, I s → (lowering s).inProgress = enclosing →
    ∃ a t, x.run s = some (a, t) ∧ I t ∧
      lowering t = ⟨enclosing, (lowering s).declared.declareTargets targets⟩ ∧
      ∀ later : Declarations, (lowering t).declared <+: later → a = value later.nameOf

namespace Lowers

theorem pure (a : α) : Lowers I enclosing (pure a) [] fun _ => a := by
  intro s hs he
  exact ⟨a, s, rfl, hs, by rw [← he]; rfl, fun _ _ => rfl⟩

variable {x : LoweringM σ α} {y : LoweringM σ β} {ts us : List Target}
  {v : (Target → String) → α} {w : (Target → String) → β}

theorem congr {w : (Target → String) → α} (hx : Lowers I enclosing x ts v) (ht : ts = us)
    (hv : ∀ n, v n = w n) : Lowers I enclosing x us w := by
  obtain rfl := ht
  obtain rfl : v = w := funext hv
  exact hx

theorem bind_pure (f : α → β) (hx : Lowers I enclosing x ts v) :
    Lowers I enclosing (x >>= fun a => Pure.pure (f a)) ts fun n => f (v n) := by
  intro s hs he
  obtain ⟨a, t, hrun, ht, hl, hv⟩ := hx s hs he
  exact ⟨f a, t, by simp [hrun], ht, hl, fun later h => by rw [hv later h]⟩

theorem bind₂ (f : α → β → γ) (hx : Lowers I enclosing x ts v) (hy : Lowers I enclosing y us w) :
    Lowers I enclosing (x >>= fun a => y >>= fun b => Pure.pure (f a b)) (ts ++ us)
      fun n => f (v n) (w n) := by
  intro s hs he
  obtain ⟨a, t, hx, ht, hlt, hv⟩ := hx s hs he
  obtain ⟨b, u, hy, hu, hlu, hw⟩ := hy t ht (by rw [hlt])
  have hpre : (lowering t).declared <+: (lowering u).declared := by
    rw [hlu]
    exact Declarations.prefix_declareTargets _ _
  refine ⟨f a b, u, by simp [hx, hy], hu, ?_, fun later h => ?_⟩
  · rw [hlu, hlt, Declarations.declareTargets_append]
  · rw [hv later (hpre.trans h), hw later h]

theorem mapM {f : α → LoweringM σ β} {ts : α → List Target} {v : α → (Target → String) → β}
    (as : List α) (h : ∀ a ∈ as, Lowers I enclosing (f a) (ts a) (v a)) :
    Lowers I enclosing (as.mapM f) (as.flatMap ts) fun n => as.map fun a => v a n := by
  induction as with
  | nil => exact pure []
  | cons a as ih =>
    rw [List.mapM_cons]
    exact bind₂ List.cons (h a List.mem_cons_self)
      (ih fun b hb => h b (List.mem_cons_of_mem _ hb))

end Lowers

/-- A computation gives an expansion with its targets declared and named. -/
abbrev LowersTo (I : σ → Prop) (enclosing : List String) (x : LoweringM σ (TypeExpr String))
    (t : TypeExpr Target) : Prop :=
  Lowers I enclosing x t.references fun n => t.mapReferences n

/-! ## Nodes -/

section Nodes

variable {follow : String → LoweringM σ (TypeExpr String)} {expanded : String → TypeExpr Target}

/-- A kind is lowered to its type when the parts are. -/
theorem lowersTo_kind {members : LoweringM σ (List (Member (TypeExpr String)))}
    {item : LoweringM σ (TypeExpr String)} {value : LoweringM σ (Option (TypeExpr String))}
    {M : List (Member (TypeExpr Target))} {i : TypeExpr Target} {V : Option (TypeExpr Target)}
    (hm : Lowers I enclosing members (M.flatMap (·.type.references))
      fun n => M.map (TypeExpr.mapMember n))
    (hi : LowersTo I enclosing item i)
    (hv : Lowers I enclosing value (V.toList.flatMap TypeExpr.references)
      fun n => V.map (TypeExpr.mapReferences n)) (kind : Kind) :
    LowersTo I enclosing (kind.lower members item value) (kind.type M i V) := by
  cases kind with
  | object =>
    exact (hm.bind₂ TypeExpr.ofMembers hv).congr (by simp [Kind.type]) (by simp [Kind.type])
  | array => exact hi.bind_pure TypeExpr.array
  | string | number | boolean | void => exact Lowers.pure _
  | unrecognized | missing =>
    refine (hv.bind_pure fun value => (value.map TypeExpr.map).getD .unknown).congr ?_ ?_
    · cases V <;> simp [Kind.type, TypeExpr.references, TypeExpr.unknown]
    · cases V <;> simp [Kind.type, TypeExpr.mapReferences, TypeExpr.unknown]

theorem lowers_all (nodes : List SchemaNode)
    (h : ∀ n ∈ nodes, LowersTo I enclosing (n.lower follow) (n.expand expanded)) :
    Lowers I enclosing (lowerAll follow nodes)
      (nodes.flatMap fun n => (n.expand expanded).references)
      fun names => nodes.map fun n => (n.expand expanded).mapReferences names := by
  rw [lowerAll_eq]
  exact Lowers.mapM nodes h

theorem lowers_properties {node : SchemaNode} {properties : List (String × SchemaNode)}
    (h : ∀ p ∈ properties, LowersTo I enclosing (p.2.lower follow) (p.2.expand expanded)) :
    Lowers I enclosing (lowerProperties follow node.required properties)
      ((properties.map (node.expandProperty expanded)).flatMap (·.type.references))
      fun names => (properties.map (node.expandProperty expanded)).map
        (TypeExpr.mapMember names) := by
  rw [lowerProperties_eq, List.flatMap_map]
  simp only [List.map_map]
  exact Lowers.mapM properties fun p hp => (h p hp).bind_pure _

/-- A kind of a node is lowered to its expansion when the parts of the node are. -/
theorem lowersTo_nodeKind {node : SchemaNode}
    (h : ∀ part ∈ node.parts, LowersTo I enclosing (part.lower follow) (part.expand expanded))
    (kind : Kind) :
    LowersTo I enclosing (node.lowerKind follow kind) (node.expandKind expanded kind) := by
  refine lowersTo_kind ?_ ?_ ?_ kind
  · exact lowers_properties fun p hp => h p.2 (SchemaNode.mem_parts_of_properties hp)
  · cases hi : node.items with
    | none => exact Lowers.pure _
    | some item => exact h item (SchemaNode.mem_parts_of_items hi)
  · cases hv : node.additionalSchema with
    | none => exact Lowers.pure _
    | some value =>
      exact ((h value (SchemaNode.mem_parts_of_additional hv)).bind_pure some).congr (by simp)
        fun _ => rfl

/-- A node is lowered to its expansion when the names it refers to are. -/
theorem lowersTo_node (hf : ∀ name, LowersTo I enclosing (follow name) (expanded name))
    (node : SchemaNode) : LowersTo I enclosing (node.lower follow) (node.expand expanded) := by
  induction node using SchemaNode.induct with
  | step node ih =>
    rw [SchemaNode.lower_eq, SchemaNode.expand_eq]
    cases hform : node.form with
    | reference name => exact hf name
    | allOf nodes =>
      have h := lowers_all nodes fun n hn =>
        ih n (SchemaNode.mem_parts_of_allOf (SchemaNode.allOf_of_form hform ▸ hn))
      exact (h.bind_pure TypeExpr.intersection).congr
        (by simp [TypeExpr.references, List.flatMap_map])
        (by simp [TypeExpr.mapReferences, Function.comp_def])
    | anyOf nodes =>
      have h := lowers_all nodes fun n hn =>
        ih n (SchemaNode.mem_parts_of_anyOf (SchemaNode.anyOf_of_form hform ▸ hn))
      exact (h.bind_pure TypeExpr.union).congr
        (by simp [TypeExpr.references, List.flatMap_map])
        (by simp [TypeExpr.mapReferences, Function.comp_def])
    | values values => exact Lowers.pure _
    | kinds kinds =>
      have h := Lowers.mapM kinds fun kind _ => lowersTo_nodeKind ih kind
      have hunion : LowersTo I enclosing
          (do let types ← kinds.mapM (node.lowerKind follow); return .union types)
          (.union (kinds.map (node.expandKind expanded))) :=
        (h.bind_pure TypeExpr.union).congr
          (by simp [TypeExpr.references, List.flatMap_map])
          (by simp [TypeExpr.mapReferences, Function.comp_def])
      rcases kinds with _ | ⟨kind, _ | ⟨kind', kinds⟩⟩
      · exact hunion
      · exact lowersTo_nodeKind ih kind
      · exact hunion

end Nodes

/-! ## Definitions -/

/-- Declares a definition that is in progress, and names it. -/
theorem Lowers.declare (hI : Invariant definitions I) {name : String} (hname : name ∈ enclosing) :
    Lowers I enclosing (LoweringM.declare name) [.enclosing name] fun n => n (.enclosing name) := by
  intro s hs he
  refine ⟨_, _, rfl, hI.step hs (.declare (he ▸ hname)), ?_, fun later hl => ?_⟩
  · rw [LoweringState.lowering_replace, he]
    rfl
  · rw [LoweringState.lowering_replace] at hl
    exact (Declarations.typeName_of_prefix (Declarations.mem_declare _ name) hl).symm

/-- Does what is done inside one definition more, with that definition begun before and
left after. -/
theorem Lowers.within (hI : Invariant definitions I) {name : String} {x : LoweringM σ α}
    {targets : List Target} {value : (Target → String) → α} (hname : name ∈ definitions.keys)
    (hnew : name ∉ enclosing) (hx : Lowers I (name :: enclosing) x targets value) :
    Lowers I enclosing
      (do
        LoweringM.enter name
        let a ← x
        LoweringM.leave
        return a) targets value := by
  intro s hs he
  have hinside := hI.step hs (.enter hname (he ▸ hnew))
  obtain ⟨a, t, hrun, ht, hlt, hvalue⟩ := hx _ hinside (by simp [he])
  rw [LoweringState.lowering_replace] at hlt
  refine ⟨a, replace ⟨enclosing, (lowering t).declared⟩ t, ?_, hI.step ht ?_, ?_, ?_⟩
  · simp [LoweringM.enter, LoweringM.leave, LoweringM.known, hrun, hlt]
  · rw [hlt]
    exact .leave
  · rw [LoweringState.lowering_replace, hlt]
  · rwa [LoweringState.lowering_replace]

/-- Does what depends on what is known. -/
theorem Lowers.known_bind (hI : Invariant definitions I) {f : Lowering → LoweringM σ α}
    {targets : List Target} {value : (Target → String) → α}
    (h : ∀ l : Lowering, l.Sound definitions → l.inProgress = enclosing →
      Lowers I enclosing (f l) targets value) :
    Lowers I enclosing (LoweringM.known >>= f) targets value := by
  intro s hs he
  exact h (lowering s) (hI.sound hs) he s hs he

namespace Definitions

/-- A name is lowered to what it leads to.  The bound is never reached, since it and
the definitions in progress are together as many as there are definitions. -/
theorem lowersTo_reference (hI : Invariant definitions I) (bound : Nat) (name : String)
    (hb : definitions.length ≤ bound + enclosing.length) :
    LowersTo I enclosing (definitions.lowerReference bound name)
      (definitions.follow bound enclosing name) := by
  induction bound using Nat.strongRecOn generalizing enclosing name with
  | ind bound ih =>
    unfold lowerReference
    cases hnode : definitions.get? name with
    | none =>
      rw [follow_of_none _ _ hnode]
      exact Lowers.pure _
    | some node =>
      have hname := Dictionary.mem_keys_of_get? hnode
      refine Lowers.known_bind hI fun l hl he => ?_
      subst he
      by_cases hm : name ∈ l.inProgress
      · rw [follow_of_mem _ _ hnode hm, if_pos (by simpa using hm)]
        exact (Lowers.declare hI hm).bind_pure TypeExpr.reference
      · rw [if_neg (by simpa using hm)]
        have hroom : definitions.Room bound l.inProgress := ⟨hl.nodup, hl.subset, hb⟩
        obtain ⟨bound, rfl, hrest⟩ := hroom.enter hnode hm
        rw [follow_succ _ _ hnode hm]
        have hlow : ∀ ref, LowersTo I (name :: l.inProgress)
            (definitions.lowerReference bound ref)
            (definitions.follow bound (name :: l.inProgress) ref) :=
          fun ref => ih bound (Nat.lt_succ_self bound) ref hrest.length_le
        exact Lowers.within hI hname hm (lowersTo_node hlow node)

/-- A node is lowered to its expansion. -/
theorem lowersTo_lowerNode (hI : Invariant definitions I) (node : SchemaNode) :
    LowersTo I enclosing (definitions.lowerNode node) (definitions.expandNode enclosing node) :=
  lowersTo_node (fun name => lowersTo_reference hI _ name (Nat.le_add_right _ _)) node

/-! ## Declarations -/

/-- The expansion of a definition in itself. -/
def expandDefinition (definitions : Definitions) (name : String) : TypeExpr Target :=
  match definitions.get? name with
  | some node => definitions.expandNode [name] node
  | none => .unknown

/-- A definition is expanded to the same type when the same is found for its name and for all
names behind it. -/
theorem expandDefinition_congr {others : Definitions} {p : String → Prop} {name : String}
    (hp : definitions.Closed p) (hsame : ∀ name, p name → definitions.get? name = others.get? name)
    (hname : p name) : definitions.expandDefinition name = others.expandDefinition name := by
  rw [expandDefinition, expandDefinition, ← hsame name hname]
  cases hnode : definitions.get? name with
  | none => rfl
  | some node =>
    have hnode' : others.get? name = some node := hsame name hname ▸ hnode
    exact expandNode_congr hp hsame (hp name node hname hnode) (.singleton hnode) (.singleton hnode')

/-- The type of a declared definition, with the names of some declarations. -/
def namedType (definitions : Definitions) (declared : Declarations) (entry : String × String) :
    NamedType :=
  ⟨entry.2, (definitions.expandDefinition entry.1).mapReferences declared.nameOf⟩

/-- How the declarations grow when the declared definitions from a position on are lowered:
by the targets in the expansion of each, until none is left. -/
inductive Declares (definitions : Definitions) : Nat → Declarations → Declarations → Prop
  | done {position : Nat} {declared : Declarations} (h : declared[position]? = none) :
      Declares definitions position declared declared
  | next {position : Nat} {declared later : Declarations} {entry : String × String}
      (h : declared[position]? = some entry)
      (hrest : Declares definitions (position + 1)
        (declared.declareTargets (definitions.expandDefinition entry.1).references) later) :
      Declares definitions position declared later

namespace Declares

variable {position : Nat} {declared later : Declarations}

theorem prefix_later (h : definitions.Declares position declared later) : declared <+: later := by
  induction h with
  | done => exact List.prefix_rfl
  | next _ _ ih => exact (Declarations.prefix_declareTargets _ _).trans ih

/-- The entry at the position is still there in the end. -/
theorem drop_eq_cons {entry : String × String} (h : declared[position]? = some entry)
    (hl : declared <+: later) : later.drop position = entry :: later.drop (position + 1) := by
  obtain ⟨hlt, hget⟩ := List.getElem?_eq_some_iff.1 h
  rw [List.drop_eq_getElem_cons (Nat.lt_of_lt_of_le hlt hl.length_le), ← hl.getElem hlt, hget]

/-- In the end the targets in the expansions that were gone through are declared. -/
theorem covers (h : definitions.Declares position declared later) :
    ∀ entry ∈ later.drop position,
      later.Covers (definitions.expandDefinition entry.1).references := by
  induction h with
  | done h => simp [List.drop_eq_nil_of_le (List.getElem?_eq_none_iff.1 h)]
  | next h hrest ih =>
    rw [drop_eq_cons h ((Declarations.prefix_declareTargets _ _).trans hrest.prefix_later)]
    exact List.forall_mem_cons.2
      ⟨(Declarations.covers_declareTargets _ _).mono hrest.prefix_later, ih⟩

theorem numbered (h : definitions.Declares position declared later) (hn : declared.Numbered) :
    later.Numbered := by
  induction h with
  | done => exact hn
  | next _ _ ih => exact ih (hn.declareTargets _)

/-- What holds of the definitions declared at first, and of those that the expansion of such a
definition points at, holds of all that are declared in the end. -/
theorem forall_mem {p : String → Prop} (h : definitions.Declares position declared later)
    (hp : ∀ definition, p definition → ∀ other,
      .enclosing other ∈ (definitions.expandDefinition definition).references → p other)
    (hstart : ∀ definition ∈ declared.map Prod.fst, p definition) :
    ∀ definition ∈ later.map Prod.fst, p definition := by
  induction h with
  | done => exact hstart
  | next h _ ih =>
    refine ih fun definition hd => ?_
    rcases Declarations.mem_declareTargets hd with hd | hd
    · exact hstart definition hd
    · exact hp _ (hstart _ (List.mem_map_of_mem (List.mem_of_getElem? h))) definition hd

/-- Where every declared definition has the same expansion, the declarations grow the same. -/
theorem congr {others : Definitions} (h : definitions.Declares position declared later)
    (hsame : ∀ definition ∈ later.map Prod.fst,
      definitions.expandDefinition definition = others.expandDefinition definition) :
    others.Declares position declared later := by
  induction h with
  | done h => exact .done h
  | @next position declared later entry h hrest ih =>
    have hlead := (Declarations.prefix_declareTargets _ _).trans hrest.prefix_later
    have hentry : entry.1 ∈ later.map Prod.fst :=
      List.mem_map_of_mem (hlead.subset (List.mem_of_getElem? h))
    refine .next h ?_
    rw [← hsame entry.1 hentry]
    exact ih hsame

/-- The declarations grow in one way only. -/
theorem unique {last : Declarations} (h : definitions.Declares position declared later)
    (h' : definitions.Declares position declared last) : later = last := by
  induction h with
  | done h =>
    cases h' with
    | done => rfl
    | next h' => simp [h] at h'
  | next h _ ih =>
    cases h' with
    | done h' => simp [h] at h'
    | next h' hrest' =>
      obtain rfl := Option.some.inj (h.symm.trans h')
      exact ih hrest'

end Declares

/-- The declared definition at a position is lowered inside itself, and then those behind
it. -/
theorem lowerDeclaredFrom_succ (steps position : Nat) :
    (definitions.lowerDeclaredFrom (steps + 1) position : LoweringM σ (List NamedType)) =
      LoweringM.known >>= fun l =>
        match l.declared[position]? with
        | none => pure []
        | some entry =>
          match definitions.get? entry.1 with
          | none => definitions.lowerDeclaredFrom steps (position + 1)
          | some node =>
            (do
              LoweringM.enter entry.1
              let type ← definitions.lowerNode node
              LoweringM.leave
              return type) >>= fun type =>
            definitions.lowerDeclaredFrom steps (position + 1) >>= fun rest =>
            pure (⟨entry.2, type⟩ :: rest) := by
  rw [lowerDeclaredFrom]
  refine congrArg _ (funext fun l => ?_)
  cases l.declared[position]? with
  | none => rfl
  | some entry =>
    cases hnode : definitions.get? entry.1 with
    | none => simp only [hnode]
    | some node => simp [hnode]

/-- What a run of the declared definitions from a position on gives: all declarations
from there, each with its type, those made in the run among them.  There are not more
declarations than definitions, so the steps are enough. -/
theorem lowerDeclaredFrom_spec (hI : Invariant definitions I) (steps position : Nat) {s : σ}
    (hs : I s) (he : (lowering s).inProgress = []) (hp : position ≤ (lowering s).declared.length)
    (hsteps : definitions.length < steps + position) :
    ∃ types t, (definitions.lowerDeclaredFrom steps position).run s = some (types, t) ∧ I t ∧
      (lowering t).inProgress = [] ∧
      definitions.Declares position (lowering s).declared (lowering t).declared ∧
      types = ((lowering t).declared.drop position).map
        (definitions.namedType (lowering t).declared) := by
  induction steps generalizing position s with
  | zero =>
    have := (hI.sound hs).declared.length_le
    omega
  | succ steps ih =>
    cases hentry : (lowering s).declared[position]? with
    | none =>
      have hdrop : (lowering s).declared.drop position = [] :=
        List.drop_eq_nil_of_le (List.getElem?_eq_none_iff.1 hentry)
      refine ⟨[], s, ?_, hs, he, .done hentry, by simp [hdrop]⟩
      simp [lowerDeclaredFrom, LoweringM.known, hentry]
    | some entry =>
      obtain ⟨hlt, hget⟩ := List.getElem?_eq_some_iff.1 hentry
      have hkey : entry.1 ∈ definitions.keys := (hI.sound hs).declared.subset
        (List.mem_map_of_mem (hget ▸ List.getElem_mem hlt))
      obtain ⟨node, hnode⟩ := Option.isSome_iff_exists.1 (Dictionary.mem_keys_iff.1 hkey)
      have hexpand :
          definitions.expandDefinition entry.1 = definitions.expandNode [entry.1] node := by
        simp [expandDefinition, hnode]
      obtain ⟨type, u, hrun, hu, hlu, htype⟩ :=
        Lowers.within hI hkey (by simp) (lowersTo_lowerNode hI node) s hs he
      have hsu : (lowering s).declared <+: (lowering u).declared := by
        rw [hlu]
        exact Declarations.prefix_declareTargets _ _
      obtain ⟨types, t, hrest, ht, het, hut, htypes⟩ := ih (position + 1) hu
        (by rw [hlu]) (Nat.lt_of_lt_of_le hlt hsu.length_le) (by omega)
      refine ⟨⟨entry.2, type⟩ :: types, t, ?_, ht, het, .next hentry ?_, ?_⟩
      · rw [lowerDeclaredFrom_succ]
        simp only [StateT.run_bind, LoweringM.known, StateT.run_get, StateT.run_pure,
          Option.pure_def, Option.bind_eq_bind, Option.bind_some, hentry, hnode] at hrun ⊢
        rw [hrun]
        simp [hrest]
      · rw [hexpand]
        rwa [hlu] at hut
      · rw [Declares.drop_eq_cons hentry (hsu.trans hut.prefix_later), List.map_cons, htypes,
          htype _ hut.prefix_later, namedType, hexpand]

/-- Lowering what is declared gives the type of every declaration, in order. -/
theorem lowerDeclared_spec (hI : Invariant definitions I) {s : σ} (hs : I s)
    (he : (lowering s).inProgress = []) :
    ∃ t, definitions.lowerDeclared.run s = some
        ((lowering t).declared.map (definitions.namedType (lowering t).declared), t) ∧ I t ∧
      (lowering t).inProgress = [] ∧
      definitions.Declares 0 (lowering s).declared (lowering t).declared := by
  obtain ⟨types, t, hrun, ht, het, hst, rfl⟩ :=
    definitions.lowerDeclaredFrom_spec hI (definitions.length + 1) 0 hs he (Nat.zero_le _)
      (Nat.lt_succ_self _)
  exact ⟨t, hrun, ht, het, hst⟩

/-- The expansion of a node that may be absent. -/
def expandOptional (definitions : Definitions) : Option SchemaNode → TypeExpr Target
  | some node => definitions.expandNode [] node
  | none => .unknown

theorem lowersTo_lowerOptional (hI : Invariant definitions I) (node : Option SchemaNode) :
    LowersTo I [] (definitions.lowerOptional node) (definitions.expandOptional node) := by
  cases node with
  | none => exact Lowers.pure _
  | some node => exact lowersTo_lowerNode hI node

end Definitions

end SwaggerClient
