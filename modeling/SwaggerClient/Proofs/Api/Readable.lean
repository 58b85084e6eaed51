import SwaggerClient.Proofs.Api.Meaning
import SwaggerClient.Proofs.Client.SelfContained
import SwaggerClient.Proofs.TypeExpr.RoundTrip

/-!
# The types of a client can be read

The types that the schemas of a document are lowered to are well formed, and when every
reference of the document has a definition they refer to declared names only.  Their
texts say which types they are.
-/

namespace SwaggerClient

open TypeExpr (WellFormed Readable IsReferenceName)

/-! ## Expansions are well formed -/

theorem Json.spelled_literal (value : Json) : value.literal.Spelled := by
  cases value with
  | number n => exact n.isNumberSpelling_text
  | _ => trivial

theorem Kind.wellFormed_type {members : List (Member (TypeExpr Target))} {item : TypeExpr Target}
    {value : Option (TypeExpr Target)} (hm : ∀ m ∈ members, m.type.WellFormed)
    (hi : item.WellFormed) (hv : ∀ type ∈ value, type.WellFormed) (kind : Kind) :
    (kind.type members item value).WellFormed := by
  cases kind with
  | object => exact .ofMembers hm hv
  | array => exact .array hi
  | string => exact .primitive .string
  | number => exact .primitive .number
  | boolean => exact .primitive .boolean
  | void => exact .unknown
  | unrecognized | missing =>
    cases value with
    | none => exact .unknown
    | some type => exact .map (hv type rfl)

namespace SchemaNode

variable {follow : String → TypeExpr Target}

/-- The expansion of a node is well formed when the types of the names it refers to are. -/
theorem wellFormed_expand (hf : ∀ name, (follow name).WellFormed) (node : SchemaNode) :
    (node.expand follow).WellFormed := by
  induction node using SchemaNode.induct with
  | step node ih =>
    have hkind : ∀ kind, (node.expandKind follow kind).WellFormed := by
      refine Kind.wellFormed_type (fun m hm => ?_) ?_ fun type ht => ?_
      · obtain ⟨p, hp, rfl⟩ := List.mem_map.1 hm
        exact ih p.2 (mem_parts_of_properties hp)
      · cases hi : node.items with
        | none => exact .unknown
        | some item => exact ih item (mem_parts_of_items hi)
      · obtain ⟨value, hv, rfl⟩ := Option.map_eq_some_iff.1 ht
        exact ih value (mem_parts_of_additional hv)
    have hform := node.form_spec
    rw [expand_eq]
    split
    next name _ => exact hf name
    next nodes heq =>
      rw [heq] at hform
      obtain ⟨-, hall, hne⟩ := hform
      refine .intersection (by simpa using hne) fun item hi => ?_
      obtain ⟨part, hp, rfl⟩ := List.mem_map.1 hi
      exact ih part (mem_parts_of_allOf (hall ▸ hp))
    next nodes heq =>
      rw [heq] at hform
      obtain ⟨-, hany, hne⟩ := hform
      refine .union (by simpa using hne) fun item hi => ?_
      obtain ⟨part, hp, rfl⟩ := List.mem_map.1 hi
      exact ih part (mem_parts_of_anyOf (hany ▸ hp))
    next values heq =>
      rw [heq] at hform
      refine .literals (by simpa using hform.2.2) fun literal hl => ?_
      obtain ⟨value, -, rfl⟩ := List.mem_map.1 hl
      exact value.spelled_literal
    next kind _ => exact hkind kind
    next kinds _ heq =>
      rw [heq] at hform
      obtain ⟨-, -, -, -, rfl⟩ := hform
      refine .union (by simpa using node.kinds_ne_nil) fun item hi => ?_
      obtain ⟨kind, -, rfl⟩ := List.mem_map.1 hi
      exact hkind kind

end SchemaNode

namespace Definitions

variable (definitions : Definitions)

theorem wellFormed_follow (bound : Nat) (enclosing : List String) (name : String) :
    (definitions.follow bound enclosing name).WellFormed := by
  induction bound generalizing enclosing name with
  | zero =>
    unfold follow
    split
    · exact .reference _
    · split <;> exact .reference _
  | succ bound ih =>
    unfold follow
    split
    · exact .reference _
    · split
      · exact .reference _
      · exact SchemaNode.wellFormed_expand (ih _) _

/-- The expansion of a node is well formed. -/
theorem wellFormed_expandNode (enclosing : List String) (node : SchemaNode) :
    (definitions.expandNode enclosing node).WellFormed :=
  SchemaNode.wellFormed_expand (definitions.wellFormed_follow _ _) node

end Definitions

namespace Document

variable {d : Document}

/-! ## Types of endpoints and named types -/

theorem wellFormed_given {definitions : Definitions} {names : Target → String}
    {node : Option SchemaNode} : ∀ type ∈ definitions.givenType names node, type.WellFormed := by
  intro type ht
  obtain ⟨node, -, rfl⟩ := Option.map_eq_some_iff.1 ht
  exact (definitions.wellFormed_expandNode [] node).mapReferences names

theorem wellFormed_endpoint {e : Endpoint} (he : e ∈ d.api.endpoints) {t : TypeDeclaration}
    (ht : t ∈ e.declarations) : t.type.WellFormed := by
  have hgiven : (∀ type ∈ e.body, type.WellFormed) ∧ ∀ type ∈ e.response, type.WellFormed := by
    rw [api_endpoints, expandedEndpoints, List.map_map] at he
    obtain ⟨route, -, rfl⟩ := List.mem_map.1 he
    exact ⟨wellFormed_given, wellFormed_given⟩
  rcases Endpoint.type_of_mem_declarations ht with htype | htype | hbody | htype
  · rw [htype]
    refine .ofMembers (fun m hm => ?_) (by simp)
    obtain ⟨name, -, rfl⟩ := List.mem_map.1 hm
    exact .primitive .string
  · rw [htype]
    refine .ofMembers (fun m hm => ?_) (by simp)
    obtain ⟨parameter, -, rfl⟩ := List.mem_map.1 hm
    exact .primitive .string
  · exact hgiven.1 _ hbody
  · rw [htype]
    cases hr : e.response with
    | none => exact .unknown
    | some response => exact hgiven.2 response hr

theorem wellFormed_named {n : NamedType} (hn : n ∈ d.api.named) : n.type.WellFormed := by
  rw [api_named] at hn
  obtain ⟨entry, he, rfl⟩ := List.mem_map.1 hn
  obtain ⟨node, hnode⟩ := exists_definition he
  rw [Definitions.namedType, Definitions.expandDefinition, hnode]
  exact (d.definitions.wellFormed_expandNode [entry.1] node).mapReferences _

/-- The name of a known target is read as a reference, when every reference has a
definition and no declared name is that of a primitive type. -/
theorem isReferenceName_of_known (hlint : undefinedReferenceLint.check d = [])
    (hnames : ∀ n ∈ d.api.named, ∀ kind : Primitive, kind.name ≠ n.name) {target : Target}
    (h : Target.Known d target) : IsReferenceName (d.declarations.nameOf target) := by
  obtain ⟨definition, hd, rfl⟩ := declared_of_known hlint h
  have hmem := Declarations.mem_typeName hd
  refine ⟨d.declarations_sound.identifiers _ (List.mem_map_of_mem hmem), ?_⟩
  have hnamed := hnames (d.definitions.namedType d.declarations
    (definition, d.declarations.typeName definition))
  exact hnamed (by rw [api_named]; exact List.mem_map_of_mem hmem)

/-- The declared types of a document are readable. -/
theorem readable_endpoint (hlint : undefinedReferenceLint.check d = [])
    (hnames : ∀ n ∈ d.api.named, ∀ kind : Primitive, kind.name ≠ n.name) {e : Endpoint}
    (he : e ∈ d.api.endpoints) {t : TypeDeclaration} (ht : t ∈ e.declarations) :
    t.type.Readable where
  wellFormed := wellFormed_endpoint he ht
  references name hname := by
    obtain ⟨type, htype, hname⟩ := Endpoint.exists_of_mem_declarations ht hname
    obtain ⟨target, htarget, rfl⟩ := known_of_endpoint he htype hname
    exact isReferenceName_of_known hlint hnames htarget

theorem readable_named (hlint : undefinedReferenceLint.check d = [])
    (hnames : ∀ n ∈ d.api.named, ∀ kind : Primitive, kind.name ≠ n.name) {n : NamedType}
    (hn : n ∈ d.api.named) : n.type.Readable where
  wellFormed := wellFormed_named hn
  references name hname := by
    obtain ⟨target, htarget, rfl⟩ := known_of_named hn hname
    exact isReferenceName_of_known hlint hnames htarget

end Document

open TypeText (read)

/-- The text of a readable type, at whatever position, is read back to the normal form of
the type, and so types with the same text have the same normal form.  The types that the
client of a document declares are readable, when every reference has a definition and no
declared name is that of a primitive type. -/
theorem rendered_types_readable :
    (∀ t : TypeExpr String, t.Readable → ∀ position, read (t.renderAt position) = some t.norm) ∧
    (∀ t u : TypeExpr String, t.Readable → u.Readable → ∀ position position',
      t.renderAt position = u.renderAt position' → t.norm = u.norm) ∧
    ∀ d : Document, undefinedReferenceLint.check d = [] →
      (∀ n ∈ d.api.named, ∀ kind : Primitive, kind.name ≠ n.name) →
      (∀ e ∈ d.api.endpoints, ∀ t ∈ e.declarations, t.type.Readable) ∧
        ∀ n ∈ d.api.named, n.type.Readable := by
  refine ⟨fun t ht => TypeText.read_renderAt ht, fun t u ht hu position position' heq => ?_,
    fun d hlint hnames => ⟨fun e he t ht => Document.readable_endpoint hlint hnames he ht,
      fun n hn => Document.readable_named hlint hnames hn⟩⟩
  have hread := TypeText.read_renderAt ht position
  rw [heq, TypeText.read_renderAt hu position', Option.some.injEq] at hread
  exact hread.symm

/-- A type whose keys, literals and documentation hold the signs of the notation. -/
def thornyType : TypeExpr String :=
  .object
    [⟨"it's", true, some "not the end: */", .array (.literals [.number "-1.5e3", .text "a|b\\"])⟩]
    (some (.union [.intersection [.reference "Pet", .map (.primitive .number)],
      .literals [.text "\x7d"]]))

theorem rendered_types_readable_thorny :
    thornyType.Readable ∧ read (thornyType.renderAt .operand) = some thornyType.norm ∧
    undefinedReferenceLint.check Document.treeDocument = [] ∧
    (∀ n ∈ Document.treeDocument.api.named, ∀ kind : Primitive, kind.name ≠ n.name) ∧
    (∀ e ∈ Document.treeDocument.api.endpoints, ∀ t ∈ e.declarations, t.type.Readable) ∧
    ∀ n ∈ Document.treeDocument.api.named, n.type.Readable := by
  have hwf : thornyType.WellFormed := by
    have hnumber : isNumberSpelling "-1.5e3".toList := by decide
    have hmember : WellFormed (.literals [.number "-1.5e3", .text "a|b\\"] : TypeExpr String) :=
      .literals (by simp) (List.forall_mem_cons.2 ⟨hnumber, List.forall_mem_singleton.2 trivial⟩)
    have hpet : (TypeExpr.intersection [.reference "Pet", .map (.primitive .number)]).WellFormed :=
      .intersection (by simp) (List.forall_mem_cons.2
        ⟨.reference _, List.forall_mem_singleton.2 (.map (.primitive _))⟩)
    have hbrace : (TypeExpr.literals [.text "\x7d"] : TypeExpr String).WellFormed :=
      .literals (by simp) (List.forall_mem_singleton.2 trivial)
    refine .object (List.forall_mem_singleton.2 (.array hmember)) fun value hv => ?_
    obtain rfl := Option.some.inj hv
    exact .union (by simp) (List.forall_mem_cons.2 ⟨hpet, List.forall_mem_singleton.2 hbrace⟩)
  have hreadable : thornyType.Readable := by
    refine ⟨hwf, fun name hname => ?_⟩
    obtain rfl : name = "Pet" := List.mem_singleton.1 hname
    exact ⟨by decide, fun kind => by cases kind <;> decide⟩
  have hlint : undefinedReferenceLint.check Document.treeDocument = [] := by decide +kernel
  have hnames : ∀ n ∈ Document.treeDocument.api.named, ∀ kind : Primitive, kind.name ≠ n.name := by
    have hlist : ∀ n ∈ Document.treeDocument.api.named,
        n.name ∉ ["string", "number", "boolean", "unknown"] := by decide +kernel
    intro n hn kind heq
    refine hlist n hn ?_
    rw [← heq]
    cases kind <;> decide
  obtain ⟨hread, -, hdocument⟩ := rendered_types_readable
  exact ⟨hreadable, hread thornyType hreadable .operand, hlint, hnames,
    hdocument Document.treeDocument hlint hnames⟩

end SwaggerClient
