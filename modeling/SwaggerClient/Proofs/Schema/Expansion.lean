import Mathlib.Logic.Relation
import SwaggerClient.Proofs.Schema.Consulted
import SwaggerClient.Proofs.Schema.Declarations
import SwaggerClient.Proofs.TypeExpr.Basic

/-!
# Expansion of schemas

The type that a node describes as a function of the node and of the definitions in
progress around it, before anything has a type name.  The references that stay say
what they point at, and a lowering only has to name them.
-/

namespace SwaggerClient

/-- What a reference that stays points at. -/
inductive Target where
  /-- A name that no definition has. -/
  | undefined (name : String)
  /-- A definition that is being expanded around the reference. -/
  | enclosing (definition : String)
  deriving DecidableEq

namespace Declarations

variable {declared later : Declarations}

/-- Declares the definitions that targets need a name for. -/
def declareTargets (declared : Declarations) : List Target → Declarations
  | [] => declared
  | .undefined _ :: targets => declared.declareTargets targets
  | .enclosing definition :: targets => (declared.declare definition).declareTargets targets

/-- The name of a target in the generated code. -/
def nameOf (declared : Declarations) : Target → String
  | .undefined name => name
  | .enclosing definition => declared.typeName definition

/-- Whether every definition that targets point at is declared. -/
def Covers (declared : Declarations) (targets : List Target) : Prop :=
  ∀ definition, Target.enclosing definition ∈ targets → definition ∈ declared.map Prod.fst

theorem declareTargets_append (declared : Declarations) (ts us : List Target) :
    declared.declareTargets (ts ++ us) = (declared.declareTargets ts).declareTargets us := by
  induction ts generalizing declared with
  | nil => rfl
  | cons t ts ih => cases t <;> simp [declareTargets, ih]

theorem prefix_declareTargets (declared : Declarations) (targets : List Target) :
    declared <+: declared.declareTargets targets := by
  induction targets generalizing declared with
  | nil => exact List.prefix_rfl
  | cons t ts ih =>
    cases t with
    | undefined => exact ih declared
    | enclosing d => exact (prefix_declare declared d).trans (ih _)

theorem Covers.mono {targets : List Target} (h : declared.Covers targets)
    (hl : declared <+: later) : later.Covers targets :=
  fun d hd => (hl.map Prod.fst).subset (h d hd)

theorem covers_declareTargets (declared : Declarations) (targets : List Target) :
    (declared.declareTargets targets).Covers targets := by
  induction targets generalizing declared with
  | nil => intro d hd; simp at hd
  | cons t ts ih =>
    intro d hd
    cases t with
    | undefined => exact ih declared d (by simpa using hd)
    | enclosing e =>
      rcases List.mem_cons.1 hd with heq | hd
      · cases heq
        exact ((prefix_declareTargets _ ts).map Prod.fst).subset (mem_declare declared d)
      · exact ih (declared.declare e) d hd

/-- Nothing is declared for targets that have their names already. -/
theorem declareTargets_of_covers {targets : List Target} (h : declared.Covers targets) :
    declared.declareTargets targets = declared := by
  induction targets with
  | nil => rfl
  | cons t ts ih =>
    have hts : declared.Covers ts := fun d hd => h d (List.mem_cons_of_mem _ hd)
    cases t with
    | undefined => exact ih hts
    | enclosing d => rw [declareTargets, declare_of_mem (h d List.mem_cons_self), ih hts]

/-- Targets that have their names keep them. -/
theorem Covers.mapReferences_nameOf {t : TypeExpr Target} (h : declared.Covers t.references)
    (hl : declared <+: later) : t.mapReferences later.nameOf = t.mapReferences declared.nameOf := by
  refine TypeExpr.mapReferences_congr fun target ht => ?_
  cases target with
  | undefined => rfl
  | enclosing definition => exact typeName_of_prefix (h definition ht) hl

/-- What is declared for targets was declared before or is pointed at by one of them. -/
theorem mem_declareTargets {targets : List Target} {definition : String}
    (h : definition ∈ (declared.declareTargets targets).map Prod.fst) :
    definition ∈ declared.map Prod.fst ∨ .enclosing definition ∈ targets := by
  induction targets generalizing declared with
  | nil => exact .inl h
  | cons t ts ih =>
    cases t with
    | undefined => exact (ih h).imp_right (List.mem_cons_of_mem _)
    | enclosing d =>
      rcases ih h with hd | hd
      · refine (mem_declare_iff.1 hd).imp_right ?_
        rintro rfl
        exact List.mem_cons_self
      · exact .inr (List.mem_cons_of_mem _ hd)

theorem Numbered.declareTargets (h : Numbered declared) (targets : List Target) :
    Numbered (declared.declareTargets targets) := by
  induction targets generalizing declared with
  | nil => exact h
  | cons t ts ih =>
    cases t with
    | undefined => exact ih h
    | enclosing d => exact ih (h.declare d)

end Declarations

/-! ## Expansion -/

/-- The type of a kind, made of the types of the parts of its node. -/
def Kind.type (members : List (Member (TypeExpr Target))) (item : TypeExpr Target)
    (value : Option (TypeExpr Target)) : Kind → TypeExpr Target
  | .object => .ofMembers members value
  | .array => .array item
  | .string => .primitive .string
  | .number => .primitive .number
  | .boolean => .primitive .boolean
  | .void => .unknown
  | .unrecognized | .missing => (value.map .map).getD .unknown

mutual

/-- The type of a node, given the type of each name that a reference may give. -/
def SchemaNode.expand (follow : String → TypeExpr Target) : SchemaNode → TypeExpr Target
  | ⟨_, some pointer, _, _, _, _, _, _, _, _⟩ => follow (definitionName pointer)
  | ⟨_, none, node :: nodes, _, _, _, _, _, _, _⟩ =>
    .intersection (node.expand follow :: expandAll follow nodes)
  | ⟨_, none, [], node :: nodes, _, _, _, _, _, _⟩ =>
    .union (node.expand follow :: expandAll follow nodes)
  | ⟨_, none, [], [], value :: values, _, _, _, _, _⟩ =>
    .literals ((value :: values).map Json.literal)
  | ⟨type, none, [], [], [], properties, items, required, additional, _⟩ =>
    let members :=
      match properties with
      | some properties => expandProperties follow required properties
      | none => []
    let item :=
      match items with
      | some item => item.expand follow
      | none => .unknown
    let value :=
      match additional with
      | some (.schema value) => some (value.expand follow)
      | _ => none
    match kindsOf type properties.isSome items.isSome with
    | [kind] => kind.type members item value
    | kinds => .union (kinds.map (Kind.type members item value))

/-- The types of nodes. -/
def expandAll (follow : String → TypeExpr Target) : List SchemaNode → List (TypeExpr Target)
  | [] => []
  | node :: nodes => node.expand follow :: expandAll follow nodes

/-- The members made of properties, some of which are required. -/
def expandProperties (follow : String → TypeExpr Target) (required : List String) :
    List (String × SchemaNode) → List (Member (TypeExpr Target))
  | [] => []
  | (name, node) :: properties =>
    ⟨name, !required.contains name, memberDoc node.describe, node.expand follow⟩
      :: expandProperties follow required properties

end

@[simp] theorem expandAll_eq (follow : String → TypeExpr Target) (nodes : List SchemaNode) :
    expandAll follow nodes = nodes.map (SchemaNode.expand follow) := by
  induction nodes with
  | nil => rfl
  | cons node nodes ih => simp [expandAll, ih]

theorem expandProperties_eq (follow : String → TypeExpr Target) (required : List String)
    (properties : List (String × SchemaNode)) :
    expandProperties follow required properties = properties.map fun p =>
      ⟨p.1, !required.contains p.1, memberDoc p.2.describe, p.2.expand follow⟩ := by
  induction properties with
  | nil => rfl
  | cons p properties ih => simp [expandProperties, ih]

namespace SchemaNode

variable (follow : String → TypeExpr Target)

/-- The member made of a property of a node. -/
def expandProperty (node : SchemaNode) (property : String × SchemaNode) :
    Member (TypeExpr Target) :=
  ⟨property.1, !node.isRequired property.1, memberDoc property.2.describe,
    property.2.expand follow⟩

/-- The type of a kind of a node. -/
def expandKind (node : SchemaNode) (kind : Kind) : TypeExpr Target :=
  kind.type ((node.properties.getD []).map (node.expandProperty follow))
    ((node.items.map (expand follow)).getD .unknown) (node.additionalSchema.map (expand follow))

/-- The type of a node by its form. -/
theorem expand_eq (node : SchemaNode) :
    node.expand follow =
      match node.form with
      | .reference name => follow name
      | .allOf nodes => .intersection (nodes.map (expand follow))
      | .anyOf nodes => .union (nodes.map (expand follow))
      | .values values => .literals (values.map Json.literal)
      | .kinds [kind] => node.expandKind follow kind
      | .kinds kinds => .union (kinds.map (node.expandKind follow)) := by
  obtain ⟨type, ref, allOf, anyOf, values, properties, items, required, additional,
    description⟩ := node
  cases ref with
  | some pointer => simp [form, expand]
  | none =>
    cases allOf with
    | cons n ns => simp [form, expand]
    | nil =>
      cases anyOf with
      | cons n ns => simp [form, expand]
      | nil =>
        cases values with
        | cons v vs => simp [form, expand]
        | nil =>
          cases properties <;> cases items <;> rcases additional with _ | (_ | _) <;>
            simp only [expand, expandProperties_eq, form, SchemaNode.kinds, ne_eq,
              not_true_eq_false, if_false] <;>
            generalize kindsOf type _ _ = kinds <;>
            rcases kinds with _ | ⟨kind, _ | ⟨kind', kinds⟩⟩ <;> rfl

/-- The type of a reference is the type of the name that it gives. -/
theorem expand_of_refName {node : SchemaNode} {name : String} (h : node.refName = some name) :
    node.expand follow = follow name := by
  rw [expand_eq]
  have hform := node.form_spec
  split at hform
  next other heq =>
    obtain rfl : name = other := Option.some.inj (h.symm.trans hform)
    rw [heq]
  all_goals simp [h] at hform

/-- The references of the type of a kind are those of its members, of its item or of its
values. -/
theorem mem_references_expandKind_iff {node : SchemaNode} {kind : Kind} {target : Target} :
    target ∈ (node.expandKind follow kind).references ↔
      (kind = .object ∧ ∃ property ∈ node.properties.getD [],
        target ∈ (property.2.expand follow).references) ∨
      (kind = .array ∧ ∃ item, node.items = some item ∧
        target ∈ (item.expand follow).references) ∨
      (kind.hasValues ∧ ∃ value, node.additionalSchema = some value ∧
        target ∈ (value.expand follow).references) := by
  unfold expandKind Kind.type
  cases kind with
  | object =>
    rw [TypeExpr.references_ofMembers, List.mem_append]
    simp [Kind.hasValues, List.mem_flatMap, expandProperty]
  | array => cases hi : node.items <;> simp [Kind.hasValues, TypeExpr.references, TypeExpr.unknown]
  | string | number | boolean | void =>
    simp [Kind.hasValues, TypeExpr.references, TypeExpr.unknown]
  | unrecognized | missing =>
    cases hv : node.additionalSchema <;>
      simp [Kind.hasValues, TypeExpr.references, TypeExpr.unknown]

/-- The references of the type of a composition. -/
theorem mem_references_expand_of_composition {node : SchemaNode} {nodes : List SchemaNode}
    {target : Target} (hform : node.form = .allOf nodes ∨ node.form = .anyOf nodes) :
    target ∈ (node.expand follow).references ↔
      ∃ part ∈ nodes, target ∈ (part.expand follow).references := by
  rw [expand_eq]
  rcases hform with hform | hform <;>
    simp [hform, TypeExpr.references, List.flatMap_map, List.mem_flatMap]

/-- The references of the type of a node that is described by kinds. -/
theorem mem_references_expand_of_kinds {node : SchemaNode} {kinds : List Kind} {target : Target}
    (hform : node.form = .kinds kinds) :
    target ∈ (node.expand follow).references ↔
      ∃ kind ∈ kinds, target ∈ (node.expandKind follow kind).references := by
  rw [expand_eq, hform]
  rcases kinds with _ | ⟨kind, _ | ⟨kind', kinds⟩⟩ <;>
    simp [TypeExpr.references, List.flatMap_map]

/-- The references in the type of a node are those in the types of the names looked up. -/
theorem mem_references_expand_iff {target : Target} (node : SchemaNode) :
    target ∈ (node.expand follow).references ↔
      ∃ name, node.Consults name ∧ target ∈ (follow name).references := by
  constructor
  · induction node using SchemaNode.induct with
    | step node ih =>
      intro h
      cases hform : node.form with
      | reference name =>
        rw [expand_eq, hform] at h
        exact ⟨name, .reference hform, h⟩
      | allOf nodes =>
        obtain ⟨part, hp, ht⟩ :=
          (mem_references_expand_of_composition follow (.inl hform)).1 h
        obtain ⟨name, hname, ht⟩ := ih part (mem_parts_of_allOf (allOf_of_form hform ▸ hp)) ht
        exact ⟨name, .allOf hform hp hname, ht⟩
      | anyOf nodes =>
        obtain ⟨part, hp, ht⟩ :=
          (mem_references_expand_of_composition follow (.inr hform)).1 h
        obtain ⟨name, hname, ht⟩ := ih part (mem_parts_of_anyOf (anyOf_of_form hform ▸ hp)) ht
        exact ⟨name, .anyOf hform hp hname, ht⟩
      | values values => simp [expand_eq, hform, TypeExpr.references] at h
      | kinds kinds =>
        obtain ⟨kind, hk, h⟩ := (mem_references_expand_of_kinds follow hform).1 h
        rcases (mem_references_expandKind_iff follow).1 h with
          ⟨rfl, property, hp, ht⟩ | ⟨rfl, item, hi, ht⟩ | ⟨hkind, value, hv, ht⟩
        · obtain ⟨name, hname, ht⟩ := ih _ (mem_parts_of_properties hp) ht
          exact ⟨name, .property hform hk hp hname, ht⟩
        · obtain ⟨name, hname, ht⟩ := ih item (mem_parts_of_items hi) ht
          exact ⟨name, .item hform hk hi hname, ht⟩
        · obtain ⟨name, hname, ht⟩ := ih value (mem_parts_of_additional hv) ht
          exact ⟨name, .value hform hk hkind hv hname, ht⟩
  · rintro ⟨name, hname, ht⟩
    induction hname with
    | reference hform => rwa [expand_eq, hform]
    | allOf hform hp _ ih =>
      exact (mem_references_expand_of_composition follow (.inl hform)).2 ⟨_, hp, ih⟩
    | anyOf hform hp _ ih =>
      exact (mem_references_expand_of_composition follow (.inr hform)).2 ⟨_, hp, ih⟩
    | property hform hk hp _ ih =>
      exact (mem_references_expand_of_kinds follow hform).2
        ⟨_, hk, (mem_references_expandKind_iff follow).2 (.inl ⟨rfl, _, hp, ih⟩)⟩
    | item hform hk hi _ ih =>
      exact (mem_references_expand_of_kinds follow hform).2
        ⟨_, hk, (mem_references_expandKind_iff follow).2 (.inr (.inl ⟨rfl, _, hi, ih⟩))⟩
    | value hform hk hkind hv _ ih =>
      exact (mem_references_expand_of_kinds follow hform).2
        ⟨_, hk, (mem_references_expandKind_iff follow).2 (.inr (.inr ⟨hkind, _, hv, ih⟩))⟩

variable {follow} {other : String → TypeExpr Target}

/-- The types of the parts that a kind has are all that the type of the kind depends on. -/
theorem expandKind_congr {node : SchemaNode} {kind : Kind}
    (hp : kind = .object → ∀ property ∈ node.properties.getD [],
      property.2.expand follow = property.2.expand other)
    (hi : kind = .array → ∀ item, node.items = some item → item.expand follow = item.expand other)
    (hv : kind.hasValues → ∀ value, node.additionalSchema = some value →
      value.expand follow = value.expand other) :
    node.expandKind follow kind = node.expandKind other kind := by
  have hvalues : kind.hasValues →
      node.additionalSchema.map (expand follow) = node.additionalSchema.map (expand other) :=
    fun h => Option.map_congr fun value hvalue => hv h value hvalue
  cases kind with
  | object =>
    have hproperties : (node.properties.getD []).map (node.expandProperty follow) =
        (node.properties.getD []).map (node.expandProperty other) :=
      List.map_congr_left fun p h => by rw [expandProperty, expandProperty, hp rfl p h]
    rw [expandKind, expandKind, Kind.type, Kind.type, hproperties, hvalues rfl]
  | array =>
    have hitem : node.items.map (expand follow) = node.items.map (expand other) :=
      Option.map_congr fun item hitem => hi rfl item hitem
    rw [expandKind, expandKind, Kind.type, Kind.type, hitem]
  | string | number | boolean | void => rfl
  | unrecognized | missing => rw [expandKind, expandKind, Kind.type, Kind.type, hvalues rfl]

/-- The types of the names that a node looks up are all that its own type depends on. -/
theorem expand_congr {node : SchemaNode}
    (h : ∀ name, node.Consults name → follow name = other name) :
    node.expand follow = node.expand other := by
  induction node using SchemaNode.induct with
  | step node ih =>
    rw [expand_eq, expand_eq]
    cases hform : node.form with
    | reference name => exact h name (.reference hform)
    | allOf nodes =>
      refine congrArg _ (List.map_congr_left fun part hp => ?_)
      exact ih part (mem_parts_of_allOf (allOf_of_form hform ▸ hp)) fun name hname =>
        h name (.allOf hform hp hname)
    | anyOf nodes =>
      refine congrArg _ (List.map_congr_left fun part hp => ?_)
      exact ih part (mem_parts_of_anyOf (anyOf_of_form hform ▸ hp)) fun name hname =>
        h name (.anyOf hform hp hname)
    | values values => rfl
    | kinds kinds =>
      have hkind : ∀ kind ∈ kinds, node.expandKind follow kind = node.expandKind other kind :=
        fun kind hk => expandKind_congr
          (fun heq property hp => ih _ (mem_parts_of_properties hp) fun name hname =>
            h name (.property hform (heq ▸ hk) hp hname))
          (fun heq item hi => ih _ (mem_parts_of_items hi) fun name hname =>
            h name (.item hform (heq ▸ hk) hi hname))
          (fun hvalues value hv => ih _ (mem_parts_of_additional hv) fun name hname =>
            h name (.value hform hk hvalues hv hname))
      rcases kinds with _ | ⟨kind, _ | ⟨kind', kinds⟩⟩
      · rfl
      · exact hkind kind List.mem_cons_self
      · exact congrArg _ (List.map_congr_left hkind)

end SchemaNode

namespace Definitions

variable (definitions : Definitions)

/-- The type of a name inside the expansions of some definitions.  The bound says
how many more definitions may be entered; with as many as there are definitions it
is never reached, since no definition is entered twice. -/
def follow : Nat → List String → String → TypeExpr Target
  | bound, enclosing, name =>
    match definitions.get? name with
    | none => .reference (.undefined name)
    | some node =>
      if enclosing.contains name then .reference (.enclosing name)
      else
        match bound with
        | 0 => .reference (.enclosing name)
        | bound + 1 => node.expand (follow bound (name :: enclosing))

/-- The type of a node inside the expansions of some definitions. -/
def expandNode (enclosing : List String) (node : SchemaNode) : TypeExpr Target :=
  node.expand (follow definitions definitions.length enclosing)

variable (bound : Nat) {enclosing : List String} {name : String} {node : SchemaNode}

theorem follow_of_none (h : definitions.get? name = none) :
    definitions.follow bound enclosing name = .reference (.undefined name) := by
  unfold follow
  simp [h]

theorem follow_of_mem (h : definitions.get? name = some node) (hm : name ∈ enclosing) :
    definitions.follow bound enclosing name = .reference (.enclosing name) := by
  unfold follow
  simp [h, hm]

theorem follow_succ (h : definitions.get? name = some node) (hm : name ∉ enclosing) :
    definitions.follow (bound + 1) enclosing name =
      node.expand (definitions.follow bound (name :: enclosing)) := by
  rw [follow]
  simp [h, hm]

/-- What a target is where all names that are looked up have a property: a name with it that
no definition has, or a definition with it. -/
def Leaves (p : String → Prop) : Target → Prop
  | .undefined name => definitions.get? name = none ∧ p name
  | .enclosing definition => definition ∈ definitions.keys ∧ p definition

/-- Whether the names that a definition looks up have a property when the definition has it. -/
def Closed (p : String → Prop) : Prop :=
  ∀ definition node, p definition → definitions.get? definition = some node →
    ∀ ref, node.Consults ref → p ref

variable {p : String → Prop}

theorem leaves_follow (hp : definitions.Closed p) (hname : p name) {target : Target}
    (h : target ∈ (definitions.follow bound enclosing name).references) :
    definitions.Leaves p target := by
  induction bound using Nat.strongRecOn generalizing enclosing name with
  | ind bound ih =>
    cases hnode : definitions.get? name with
    | none =>
      rw [follow_of_none _ _ hnode] at h
      obtain rfl : target = .undefined name := by simpa [TypeExpr.references] using h
      exact ⟨hnode, hname⟩
    | some node =>
      by_cases hm : name ∈ enclosing
      · rw [follow_of_mem _ _ hnode hm] at h
        obtain rfl : target = .enclosing name := by simpa [TypeExpr.references] using h
        exact ⟨Dictionary.mem_keys_of_get? hnode, hname⟩
      · cases bound with
        | zero =>
          obtain rfl : target = .enclosing name := by
            simpa [follow, hnode, TypeExpr.references] using h
          exact ⟨Dictionary.mem_keys_of_get? hnode, hname⟩
        | succ bound =>
          rw [follow_succ _ _ hnode hm] at h
          obtain ⟨ref, href, ht⟩ := (SchemaNode.mem_references_expand_iff _ node).1 h
          exact ih bound (Nat.lt_succ_self bound) (hp _ _ hname hnode _ href) ht

/-- The targets in the expansion of a node. -/
theorem leaves_expandNode (hp : definitions.Closed p) (hnode : ∀ ref, node.Consults ref → p ref)
    {target : Target}
    (h : target ∈ (definitions.expandNode enclosing node).references) :
    definitions.Leaves p target := by
  obtain ⟨ref, href, ht⟩ := (SchemaNode.mem_references_expand_iff _ node).1 h
  exact definitions.leaves_follow _ hp (hnode ref href) ht

/-! ## What an expansion depends on -/

variable {definitions} {others : Definitions} {bound bound' : Nat} {enclosing' : List String}

/-- Some definitions in progress that leave room for as many more as a bound says: they are
different, they are there, and with the bound they are as many as there are definitions. -/
structure Room (definitions : Definitions) (bound : Nat) (enclosing : List String) : Prop where
  nodup : enclosing.Nodup
  subset : enclosing ⊆ definitions.keys
  length_le : definitions.length ≤ bound + enclosing.length

namespace Room

theorem nil (definitions : Definitions) : definitions.Room definitions.length [] :=
  ⟨List.nodup_nil, List.nil_subset _, Nat.le_refl _⟩

theorem singleton (h : definitions.get? name = some node) :
    definitions.Room definitions.length [name] :=
  ⟨List.nodup_singleton _, by simpa using Dictionary.mem_keys_of_get? h, by simp⟩

/-- A definition that is not in progress yet can be entered. -/
theorem enter (h : definitions.Room bound enclosing) (hnode : definitions.get? name = some node)
    (hm : name ∉ enclosing) :
    ∃ rest, bound = rest + 1 ∧ definitions.Room rest (name :: enclosing) := by
  have hkey := Dictionary.mem_keys_of_get? hnode
  have hlt := Dictionary.length_lt_of_not_mem h.nodup h.subset hkey hm
  have hle := h.length_le
  refine ⟨bound - 1, by omega, List.nodup_cons.2 ⟨hm, h.nodup⟩, List.cons_subset.2 ⟨hkey, h.subset⟩,
    ?_⟩
  rw [List.length_cons]
  omega

end Room

/-- A name is expanded to the same type when the same is found for all names behind it, and the
same ones of them are in progress. -/
theorem follow_congr (hr : definitions.Room bound enclosing) (hr' : others.Room bound' enclosing')
    (hsame : ∀ ref, Relation.ReflTransGen definitions.Consults name ref →
      definitions.get? ref = others.get? ref ∧ (ref ∈ enclosing ↔ ref ∈ enclosing')) :
    definitions.follow bound enclosing name = others.follow bound' enclosing' name := by
  induction bound using Nat.strongRecOn generalizing bound' enclosing enclosing' name with
  | ind bound ih =>
    obtain ⟨hget, hmem⟩ := hsame name .refl
    cases hnode : definitions.get? name with
    | none => rw [follow_of_none _ _ hnode, follow_of_none _ _ (hget ▸ hnode)]
    | some node =>
      have hnode' : others.get? name = some node := hget ▸ hnode
      by_cases hm : name ∈ enclosing
      · rw [follow_of_mem _ _ hnode hm, follow_of_mem _ _ hnode' (hmem.1 hm)]
      · have hm' : name ∉ enclosing' := fun h => hm (hmem.2 h)
        obtain ⟨rest, rfl, hrest⟩ := hr.enter hnode hm
        obtain ⟨rest', rfl, hrest'⟩ := hr'.enter hnode' hm'
        rw [follow_succ _ _ hnode hm, follow_succ _ _ hnode' hm']
        refine SchemaNode.expand_congr fun ref href => ?_
        refine ih rest (Nat.lt_succ_self rest) hrest hrest' fun other hother => ?_
        obtain ⟨hget, hmem⟩ := hsame other (hother.head ⟨node, hnode, href⟩)
        exact ⟨hget, by rw [List.mem_cons, List.mem_cons, hmem]⟩

/-- A node is expanded to the same type when the same is found for all names behind it. -/
theorem expandNode_congr (hp : definitions.Closed p)
    (hsame : ∀ name, p name → definitions.get? name = others.get? name)
    (hnode : ∀ ref, node.Consults ref → p ref)
    (hr : definitions.Room definitions.length enclosing)
    (hr' : others.Room others.length enclosing) :
    definitions.expandNode enclosing node = others.expandNode enclosing node := by
  refine SchemaNode.expand_congr fun ref href => ?_
  refine follow_congr hr hr' fun name hname => ⟨hsame name ?_, Iff.rfl⟩
  induction hname with
  | refl => exact hnode ref href
  | tail _ hname ih =>
    obtain ⟨node, hget, hname⟩ := hname
    exact hp _ _ ih hget _ hname

end Definitions

end SwaggerClient
