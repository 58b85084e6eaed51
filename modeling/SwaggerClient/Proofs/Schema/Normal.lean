import SwaggerClient.Proofs.Schema.Discipline
import SwaggerClient.Proofs.Schema.Distinct
import SwaggerClient.Proofs.TypeExpr.Proper

/-!
# Lowered types are proper

Whatever stands in a lowered type is what some node is lowered to that is no reference, or is a
reference itself.  So at every depth the type is proper, and a union of one comes from a node with
one alternative.
-/

namespace SwaggerClient

/-- Whether a path leads to something.  References are followed on the way. -/
inductive View.Leads {α : Type} (V : View α) : α → List Selector → α → Prop
  | here {a : α} : Leads V a [] a
  | resolve {a b c : α} {path : List Selector} (hb : V.resolve a = some b)
      (h : Leads V b path c) : Leads V a path c
  | part {a b c : α} {selector : Selector} {path : List Selector}
      (hb : V.part a selector = some b) (h : Leads V b path c) : Leads V a (selector :: path) c

/-- Documentation is never empty. -/
theorem memberDoc_ne (text : String) : memberDoc text ≠ some "" := by
  unfold memberDoc
  split
  · simp
  next h =>
    intro heq
    exact h (by rw [Option.some.inj heq]; rfl)

/-! ## The type of a node that is no reference -/

namespace SchemaNode

variable {follow : String → TypeExpr Target} {node : SchemaNode}

theorem DistinctProperties.kindPart (h : node.DistinctProperties) {kind : Kind}
    {selector : Selector} {child : SchemaNode} (hc : node.kindPart kind selector = some child) :
    child.DistinctProperties := by
  obtain ⟨-, -, -, properties, items, additional⟩ := h
  unfold SchemaNode.kindPart at hc
  split at hc
  · exact properties _ (Dictionary.mem_of_get? hc)
  · exact additional child hc
  · cases hitem : node.items with
    | none =>
      obtain rfl : {} = child := by simpa [hitem] using hc
      exact .empty
    | some item =>
      obtain rfl : item = child := by simpa [hitem] using hc
      exact items item hitem
  · exact additional child hc
  · exact additional child hc
  · cases hc

/-- With another type a node has the same properties. -/
theorem DistinctProperties.typeAlternative (h : node.DistinctProperties) {child : SchemaNode}
    (hc : child ∈ node.typeAlternatives) : child.DistinctProperties := by
  obtain ⟨names, allOf, anyOf, properties, items, additional⟩ := h
  unfold typeAlternatives at hc
  split at hc
  · obtain ⟨token, -, rfl⟩ := List.mem_map.1 hc
    exact ⟨names, allOf, anyOf, properties, items, additional⟩
  · cases hc

/-- The parts of a node have distinct names when the node has. -/
theorem DistinctProperties.part (h : node.DistinctProperties) {selector : Selector}
    {child : SchemaNode} (hc : node.part selector = some child) : child.DistinctProperties := by
  unfold SchemaNode.part at hc
  split at hc
  next hform =>
    obtain ⟨-, allOf, -⟩ := h
    exact allOf child (allOf_of_form hform ▸ List.mem_of_getElem? hc)
  next hform =>
    obtain ⟨-, -, anyOf, -⟩ := h
    exact anyOf child (anyOf_of_form hform ▸ List.mem_of_getElem? hc)
  next => exact h.kindPart hc
  next => exact h.typeAlternative (List.mem_of_getElem? hc)
  next => cases hc

theorem proper_expandKind (h : node.DistinctProperties) (kind : Kind) :
    (node.expandKind follow kind).Proper := by
  cases kind with
  | object =>
    rw [expandKind, Kind.type, TypeExpr.ofMembers]
    split
    next => trivial
    next hne =>
      refine ⟨?_, ?_, fun m hm => ?_⟩
      · simpa [Decidable.or_iff_not_imp_left] using hne
      · obtain ⟨names, -⟩ := h
        simpa [expandProperty, Function.comp_def] using names
      · obtain ⟨property, -, rfl⟩ := List.mem_map.1 hm
        exact memberDoc_ne _
  | array | string | number | boolean | void => trivial
  | unrecognized | missing =>
    rw [expandKind, Kind.type]
    cases node.additionalSchema <;> trivial

/-- What is no reference has a proper type. -/
theorem proper_expand (h : node.DistinctProperties) (href : node.refName = none) :
    (node.expand follow).Proper := by
  have hform := node.form_spec
  rw [expand_eq]
  cases heq : node.form with
  | reference name => simp [refName_of_form heq] at href
  | allOf | anyOf | values =>
    rw [heq] at hform
    exact mt List.map_eq_nil_iff.1 hform.2.2
  | kinds kinds =>
    rw [heq] at hform
    rcases kinds with _ | ⟨kind, _ | ⟨kind', kinds⟩⟩
    · exact absurd hform.2.2.2.2 node.kinds_ne_nil
    · exact proper_expandKind h kind
    · exact List.cons_ne_nil _ _

theorem expandKind_ne_union (kind : Kind) (items : List (TypeExpr Target)) :
    node.expandKind follow kind ≠ .union items := by
  cases kind with
  | object =>
    rw [expandKind, Kind.type, TypeExpr.ofMembers]
    split <;> simp [TypeExpr.unknown]
  | array | string | number | boolean | void => simp [expandKind, Kind.type, TypeExpr.unknown]
  | unrecognized | missing =>
    cases hv : node.additionalSchema <;> simp [expandKind, Kind.type, TypeExpr.unknown, hv]

/-- What is no reference and has a union of one as its type has one alternative. -/
theorem form_of_expand_eq_union {item : TypeExpr Target} (href : node.refName = none)
    (h : node.expand follow = .union [item]) : ∃ alternative, node.form = .anyOf [alternative] := by
  rw [expand_eq] at h
  cases heq : node.form with
  | reference name => simp [refName_of_form heq] at href
  | anyOf nodes =>
    rw [heq] at h
    obtain ⟨alternative, rfl, -⟩ := List.map_eq_singleton_iff.1 (TypeExpr.union.inj h)
    exact ⟨alternative, rfl⟩
  | allOf | values =>
    rw [heq] at h
    cases h
  | kinds kinds =>
    rw [heq] at h
    rcases kinds with _ | ⟨kind, _ | ⟨kind', kinds⟩⟩
    · simp at h
    · exact absurd h (expandKind_ne_union kind _)
    · simp at h

end SchemaNode

/-! ## What stands in the type of a node -/

namespace Definitions

variable {definitions : Definitions}

/-- The type of a name is a reference, or that of its definition inside itself. -/
theorem follow_cases (definitions : Definitions) (bound : Nat) (enclosing : List String)
    (name : String) :
    (∃ target, definitions.follow bound enclosing name = .reference target) ∨
      ∃ rest node, bound = rest + 1 ∧ definitions.get? name = some node ∧
        definitions.follow bound enclosing name =
          node.expand (definitions.follow rest (name :: enclosing)) := by
  cases hnode : definitions.get? name with
  | none => exact .inl ⟨_, definitions.follow_of_none bound hnode⟩
  | some node =>
    by_cases hm : name ∈ enclosing
    · exact .inl ⟨_, definitions.follow_of_mem bound hnode hm⟩
    · cases bound with
      | zero => exact .inl ⟨.enclosing name, by simp [follow, hnode]⟩
      | succ rest => exact .inr ⟨rest, node, rfl, rfl, definitions.follow_succ rest hnode hm⟩

/-- Whether a type is a reference, or what a node with distinct names is lowered to that is no
reference and that a path leads to. -/
def Stems (definitions : Definitions) (names : Target → String) (start : SchemaNode)
    (path : List Selector) (type : TypeExpr String) : Prop :=
  (∃ name, type = .reference name) ∨
    ∃ node follow, (schemaView definitions).Leads start path node ∧ node.refName = none ∧
      node.DistinctProperties ∧ type = (node.expand follow).mapReferences names

theorem Stems.imp {names : Target → String} {start start' : SchemaNode}
    {path path' : List Selector} {type : TypeExpr String}
    (hl : ∀ node, (schemaView definitions).Leads start path node →
      (schemaView definitions).Leads start' path' node)
    (h : definitions.Stems names start path type) : definitions.Stems names start' path' type := by
  refine h.imp_right ?_
  rintro ⟨node, follow, hleads, h⟩
  exact ⟨node, follow, hl node hleads, h⟩

/-- Whatever stands in the type of a node stems from a node that the same path leads to. -/
theorem stems_of_at (hd : ∀ entry ∈ definitions, entry.2.DistinctProperties)
    {names : Target → String} {bound : Nat} {enclosing : List String} {node : SchemaNode}
    (hnode : node.DistinctProperties) {path : List Selector} {type : TypeExpr String}
    (h : ((node.expand (definitions.follow bound enclosing)).mapReferences names).At path type) :
    definitions.Stems names node path type := by
  induction bound using Nat.strongRecOn generalizing enclosing node path with
  | ind bound ih =>
    -- Behind a reference the bound is smaller, and from any other node the path goes on.
    have hreference : ∀ {node : SchemaNode} {name : String} {path : List Selector},
        node.refName = some name →
        ((node.expand (definitions.follow bound enclosing)).mapReferences names).At path type →
        definitions.Stems names node path type := by
      intro node name path href h
      rw [SchemaNode.expand_of_refName _ href] at h
      rcases definitions.follow_cases bound enclosing name with
        ⟨target, heq⟩ | ⟨rest, next, rfl, hnext, heq⟩
      · rw [heq] at h
        exact .inl ⟨_, TypeExpr.eq_of_at_reference h⟩
      · rw [heq] at h
        have hstems := ih rest (Nat.lt_succ_self rest) (hd _ (Dictionary.mem_of_get? hnext)) h
        exact hstems.imp fun _ => .resolve (by simp [schemaView, href, hnext])
    induction path generalizing node with
    | nil =>
      cases href : node.refName with
      | some name => exact hreference href h
      | none =>
        cases h
        exact .inr ⟨node, _, .here, href, hnode, rfl⟩
    | cons selector path ihpath =>
      cases href : node.refName with
      | some name => exact hreference href h
      | none =>
        cases h with
        | inside hc h =>
          have hpart := ((SchemaNode.proper_expand hnode href).mapReferences names).part_eq hc
          rw [TypeExpr.part_mapReferences, SchemaNode.part_expand _ href, Option.map_map] at hpart
          obtain ⟨child, hchild, rfl⟩ := Option.map_eq_some_iff.1 hpart
          exact (ihpath (hnode.part hchild) h).imp fun _ => .part hchild

end Definitions

/-! ## Normal forms -/

/-- Whether a type that a node is lowered to, if there is one, is in normal form: at every depth
it is proper, and where a union of one stands in it the node leads to a node with one
alternative. -/
structure NormalFor (definitions : Definitions) (start : Option SchemaNode)
    (type : TypeExpr String) : Prop where
  proper : ∀ path t, type.At path t → t.Proper
  alternatives : ∀ path item, type.At path (.union [item]) →
    ∃ node ∈ start, ∃ last alternative, (schemaView definitions).Leads node path last ∧
      last.form = .anyOf [alternative]

section Normal

variable {definitions : Definitions} {names : Target → String} {enclosing : List String}

theorem normalFor_expandNode (hd : ∀ entry ∈ definitions, entry.2.DistinctProperties)
    {node : SchemaNode} (hnode : node.DistinctProperties) :
    NormalFor definitions (some node)
      ((definitions.expandNode enclosing node).mapReferences names) where
  proper path t ht := by
    rcases definitions.stems_of_at hd hnode ht with ⟨name, rfl⟩ | ⟨last, follow, -, href, hlast, rfl⟩
    · trivial
    · exact (SchemaNode.proper_expand hlast href).mapReferences names
  alternatives path item hitem := by
    rcases definitions.stems_of_at hd hnode hitem with
      ⟨name, heq⟩ | ⟨last, follow, hleads, href, -, heq⟩
    · cases heq
    · obtain ⟨single, hsingle⟩ := TypeExpr.eq_union_of_mapReferences heq.symm
      obtain ⟨alternative, hform⟩ := SchemaNode.form_of_expand_eq_union href hsingle
      exact ⟨node, rfl, last, alternative, hleads, hform⟩

/-- Of what is absent nothing is known. -/
theorem normalFor_none : NormalFor definitions none .unknown where
  proper path t ht := by
    cases ht with
    | here => trivial
    | inside hc => cases hc
  alternatives path item hitem := by
    cases hitem with
    | inside hc => cases hc

theorem normalFor_expandOptional (hd : ∀ entry ∈ definitions, entry.2.DistinctProperties)
    {node : Option SchemaNode} (hnode : ∀ n ∈ node, n.DistinctProperties) :
    NormalFor definitions node ((definitions.expandOptional node).mapReferences names) := by
  cases node with
  | none => exact normalFor_none
  | some node => exact normalFor_expandNode hd (hnode node rfl)

theorem normalFor_expandDefinition (hd : ∀ entry ∈ definitions, entry.2.DistinctProperties)
    (name : String) :
    NormalFor definitions (definitions.get? name)
      ((definitions.expandDefinition name).mapReferences names) := by
  rw [Definitions.expandDefinition]
  cases hnode : definitions.get? name with
  | none => exact normalFor_none
  | some node => exact normalFor_expandNode hd (hd _ (Dictionary.mem_of_get? hnode))

end Normal

/-- Whether the nodes that a call lowers have distinct names of properties. -/
def LoweringCall.DistinctProperties : LoweringCall → Prop
  | .lower node => ∀ n ∈ node, n.DistinctProperties
  | .namedTypes => True

/-- Whether the answer to a call is in normal form: the type for the node, or the types of the
declarations, each for its definition. -/
def LoweringCall.AnswersNormal (definitions : Definitions) :
    LoweringCall → LoweringAnswer × Lowering → Prop
  | .lower node, (answer, _) => ∃ type, answer = .type type ∧ NormalFor definitions node type
  | .namedTypes, (answer, l) => ∃ types, answer = .namedTypes types ∧
      List.Forall₂ (fun entry n => n.name = entry.2 ∧
        NormalFor definitions (definitions.get? entry.1) n.type) l.declared types

section Calls

variable {definitions : Definitions}

theorem LoweringCall.Gives.answersNormal (hd : ∀ entry ∈ definitions, entry.2.DistinctProperties)
    {call : LoweringCall} (hcall : call.DistinctProperties) {declared later : Declarations}
    {answer : LoweringAnswer} (h : call.Gives definitions declared later answer) :
    call.AnswersNormal definitions (answer, ⟨[], later⟩) := by
  cases call with
  | lower node => exact ⟨_, h.2, normalFor_expandOptional hd hcall⟩
  | namedTypes =>
    refine ⟨_, h.2, List.forall₂_map_right_iff.2 (List.forall₂_same.2 fun entry _ => ?_)⟩
    exact ⟨rfl, normalFor_expandDefinition hd entry.1⟩

theorem Answered.answersNormal (hd : ∀ entry ∈ definitions, entry.2.DistinctProperties)
    {declared last : Declarations} {calls : List LoweringCall}
    (hcalls : ∀ call ∈ calls, call.DistinctProperties)
    {answers : List (LoweringAnswer × Lowering)}
    (h : Answered definitions declared calls answers last) :
    List.Forall₂ (LoweringCall.AnswersNormal definitions) calls answers := by
  induction h with
  | nil => exact .nil
  | cons h _ ih =>
    obtain ⟨hcall, hcalls⟩ := List.forall_mem_cons.1 hcalls
    exact .cons (h.answersNormal hd hcall) (ih hcalls)

end Calls

/-- Whatever calls came before, every type that a lowering gives is in normal form.  That the
properties of a node have distinct names is part of what a node is: all nodes that are decoded
have it, alone and in definitions. -/
theorem lowered_types_normal :
    (∀ (definitions : Definitions) (calls : List LoweringCall),
      (∀ entry ∈ definitions, entry.2.DistinctProperties) →
      (∀ call ∈ calls, call.DistinctProperties) →
      ∃ answers l, (answerAll definitions calls).run ({} : Lowering) = some (answers, l) ∧
        List.Forall₂ (LoweringCall.AnswersNormal definitions) calls answers) ∧
    (∀ source t node, SchemaNode.decode source t = .ok node → node.DistinctProperties) ∧
    ∀ source t definitions, decodeDefinitions source t = .ok definitions →
      ∀ entry ∈ definitions, entry.2.DistinctProperties := by
  refine ⟨fun definitions calls hd hcalls => ?_, SchemaNode.yields_decode, ?_⟩
  · obtain ⟨answers, last, hrun, hanswered, -⟩ := answered_fresh definitions calls
    exact ⟨answers, _, hrun, hanswered.answersNormal hd hcalls⟩
  · intro source t definitions hdecode
    exact (Yields.dictionary SchemaNode.yields_decode source t definitions hdecode).2

/-! ## An owner -/

namespace SchemaNode

/-- An owner has a name, of which there is one form, and may own others. -/
def owner : SchemaNode where
  properties := some [("name", { anyOf := [{ type := some (.single .string) }] }),
    ("owned", { items := some { ref := some "#/definitions/Owner" } })]

/-- An object with one key. -/
def keyTree (key : String) (value : Tree) : Tree :=
  .object 0 (.member (.ok key) 0 0 value 0 (.closed 0))

/-- The schema of an owner as it stands in a document, where the name is described twice. -/
def ownerTree : Tree :=
  let text (word : String) : Tree := .leaf 0 0 (.ok (.string word)) none
  let name := keyTree "anyOf" (.array 0 (.item (keyTree "type" (text "string")) 0 (.closed 0)))
  let owned := keyTree "items" (keyTree "$ref" (text "#/definitions/Owner"))
  keyTree "properties" (.object 0
    (.member (.ok "name") 0 0 (keyTree "type" (text "number")) 0
      (.member (.ok "name") 0 0 name 0 (.member (.ok "owned") 0 0 owned 0 (.closed 0)))))

end SchemaNode

open SchemaNode (owner ownerTree keyTree) in
/-- The type of an owner and the type that owners refer to are in normal form. -/
theorem lowered_types_normal_owner :
    SchemaNode.decode .value ownerTree = .ok owner ∧
    decodeDefinitions .value (keyTree "Owner" ownerTree) = .ok [("Owner", owner)] ∧
    (∀ entry ∈ [("Owner", owner)], entry.2.DistinctProperties) ∧
    (∀ call ∈ [.lower (some owner), .namedTypes], LoweringCall.DistinctProperties call) ∧
    ∃ answers l,
      (answerAll [("Owner", owner)] [.lower (some owner), .namedTypes]).run ({} : Lowering) =
        some (answers, l) ∧
      List.Forall₂ (LoweringCall.AnswersNormal [("Owner", owner)])
        [.lower (some owner), .namedTypes] answers := by
  obtain ⟨hlowered, hnode, hdefinitions⟩ := lowered_types_normal
  have hdecode : SchemaNode.decode .value ownerTree = .ok owner := rfl
  have hdecoded : decodeDefinitions .value (keyTree "Owner" ownerTree) = .ok [("Owner", owner)] :=
    rfl
  have hd := hdefinitions .value _ _ hdecoded
  have hcalls : ∀ call ∈ [.lower (some owner), .namedTypes],
      LoweringCall.DistinctProperties call := by
    refine List.forall_mem_cons.2 ⟨fun n hn => ?_, List.forall_mem_singleton.2 trivial⟩
    exact Option.some.inj hn ▸ hnode .value ownerTree owner hdecode
  exact ⟨hdecode, hdecoded, hd, hcalls, hlowered [("Owner", owner)] _ hd hcalls⟩

end SwaggerClient
