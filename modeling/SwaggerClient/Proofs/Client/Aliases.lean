import Mathlib.Data.List.Nodup
import SwaggerClient.Client.Module
import SwaggerClient.Proofs.Code.DocComment
import SwaggerClient.Proofs.Name.Identifier
import SwaggerClient.Proofs.Text.Reading

/-!
# Type aliases in generated source

A type is declared on a line of its own, below its documentation if it has any.  The source of a
part of a module begins with the lines of its named types, which have none, and the code of the
endpoint begins with a comment behind them.  So the source tells which named types it declares, and
the fragments of the endpoint tell which types of its own.
-/

namespace SwaggerClient

/-- What stands in front of a type that is declared under a name. -/
def aliasStart (name : String) : String :=
  "export type " ++ name ++ " = "

/-- What declares a type under a name. -/
def aliasLine (name type : String) : String :=
  aliasStart name ++ type ++ ";"

/-- The line that declares a named type. -/
def NamedType.line (n : NamedType) : List Char :=
  (aliasLine n.name n.type.render).toList ++ ['\n']

/-- The comment and the line that declare a type. -/
def TypeDeclaration.lines (t : TypeDeclaration) : List Char :=
  t.doc.toList.flatMap (fun doc => Code.docAt 0 doc.toList)
    ++ (aliasLine t.name t.type.render).toList ++ ['\n']

/-- The code of an endpoint by itself. -/
def Endpoint.fragments (e : Endpoint) (style : ErrorStyle) : List Code.Fragment :=
  ModulePart.fragments ⟨[], e⟩ style

/-! ## What is written -/

namespace Code

/-- An alias is written as its comment and its line. -/
theorem charsOfAll_alias (t : TypeDeclaration) : charsOfAll 0 t.alias.fragments = t.lines := by
  have hline : ∀ a : TypeAlias, s!"export type {a.name} = {a.type};" = aliasLine a.name a.type :=
    fun _ => rfl
  rw [TypeDeclaration.alias, TypeAlias.fragments, hline, charsOfAll_append, TypeDeclaration.lines]
  cases t.doc <;> simp [docFragments, textAt_zero]

theorem charsOfAll_aliases (declarations : List TypeDeclaration) :
    charsOfAll 0 (declarations.flatMap fun t => t.alias.fragments) =
      declarations.flatMap TypeDeclaration.lines := by
  induction declarations with
  | nil => rfl
  | cons t declarations ih =>
    rw [List.flatMap_cons, charsOfAll_append, charsOfAll_alias, ih, List.flatMap_cons]

end Code

/-- The code of an endpoint has the types that belong to it, each below its documentation, and
then the function. -/
theorem Endpoint.charsOfAll_fragments (e : Endpoint) (style : ErrorStyle) :
    Code.charsOfAll 0 (e.fragments style) = e.declarations.flatMap TypeDeclaration.lines
      ++ Code.charsOfAll 0 (e.function style).fragments := by
  have hfragments : e.fragments style = e.declarations.flatMap (fun t => t.alias.fragments)
      ++ (e.function style).fragments := rfl
  rw [hfragments, Code.charsOfAll_append, Code.charsOfAll_aliases]

/-- The source of a part has the lines of its named types, one after the other, and then the code of
its endpoint. -/
theorem ModulePart.toList_render (part : ModulePart) (style : ErrorStyle) :
    (Code.render (part.fragments style)).toList = part.named.flatMap NamedType.line
      ++ Code.charsOfAll 0 (part.endpoint.fragments style) := by
  have hlines : (part.named.map NamedType.declaration).flatMap TypeDeclaration.lines =
      part.named.flatMap NamedType.line := List.flatMap_map _ _ _
  rw [Code.render, String.toList_ofList, fragments, Code.charsOfAll_append, Code.charsOfAll_aliases,
    declarations, List.flatMap_append, hlines, Endpoint.charsOfAll_fragments, List.append_assoc]

/-! ## What is read -/

/-- The types that belong to an endpoint are documented. -/
theorem Endpoint.doc_isSome {e : Endpoint} {t : TypeDeclaration} (ht : t ∈ e.declarations) :
    t.doc.isSome := by
  simp only [declarations, List.mem_append, List.mem_singleton] at ht
  rcases ht with ((ht | ht) | ht) | rfl
  · unfold pathDeclaration at ht
    split at ht <;> simp_all
  · unfold queryDeclaration at ht
    split at ht <;> simp_all
  · unfold bodyDeclaration at ht
    split at ht <;> simp_all
  · rfl

/-- The code of an endpoint begins with a comment. -/
theorem Endpoint.head?_fragments (e : Endpoint) (style : ErrorStyle) :
    (Code.charsOfAll 0 (e.fragments style)).head? = some '/' := by
  obtain ⟨t, ts, hdeclarations⟩ : ∃ t ts, e.declarations = t :: ts :=
    List.exists_cons_of_ne_nil (by simp [declarations])
  obtain ⟨doc, hdoc⟩ := Option.isSome_iff_exists.1
    (e.doc_isSome (hdeclarations ▸ List.mem_cons_self : t ∈ e.declarations))
  rw [charsOfAll_fragments, hdeclarations, List.flatMap_cons, TypeDeclaration.lines, hdoc]
  simp [Code.head?_docAt_zero]

namespace NamedType

variable {named ns : List NamedType} {m n : NamedType} {rest : List Char}

theorem line_eq (n : NamedType) : n.line = "export type ".toList
    ++ (n.name.toList ++ ' ' :: '=' :: ' ' :: (n.type.render.toList ++ [';', '\n'])) := by
  simp only [line, aliasLine, aliasStart, String.toList_append, List.append_assoc]
  rfl

/-- A line tells the name that it declares. -/
theorem name_eq_of_prefix (hm : isIdentifier m.name) (hn : isIdentifier n.name)
    (h : m.line <+: n.line ++ rest) : m.name = n.name := by
  obtain ⟨behind, hbehind⟩ := h
  simp only [line_eq, List.append_assoc, List.append_cancel_left_eq] at hbehind
  have htake := congrArg (List.takeWhile isIdentifierChar) hbehind
  rw [takeWhile_append_stop (isIdentifierChar_of_isIdentifierChars hm) (by simp [isIdentifierChar]),
    takeWhile_append_stop (isIdentifierChar_of_isIdentifierChars hn) (by simp [isIdentifierChar])]
    at htake
  exact String.toList_inj.1 htake

/-- Reads the lines of named types that a source begins with. -/
def readAhead (named : List NamedType) (source : String) : List NamedType :=
  (Text.readWhile (Text.readOneOf line named) source.toList.length source.toList).1

/-- The lines of named types are read back, up to code that begins otherwise. -/
theorem readAhead_eq {source : String} (hnodup : (named.map (·.name)).Nodup)
    (hnames : ∀ n ∈ named, isIdentifier n.name) (hns : ns ⊆ named) (hrest : rest.head? ≠ some 'e')
    (hsource : source.toList = ns.flatMap line ++ rest) : readAhead named source = ns := by
  have hitem : ∀ n ∈ ns, ∀ behind,
      Text.readOneOf line named (n.line ++ behind) = some (n, behind) := by
    refine fun n hn behind => Text.readOneOf_append (hns hn) fun m hm hprefix => ?_
    have hname := name_eq_of_prefix (hnames m hm) (hnames n (hns hn)) hprefix
    exact List.inj_on_of_nodup_map hnodup hm (hns hn) hname
  have hstop : Text.readOneOf line named rest = none := by
    refine Text.readOneOf_eq_none fun n _ hprefix => hrest ?_
    obtain ⟨behind, rfl⟩ := hprefix
    rw [line_eq]
    rfl
  have hlength : ns.length ≤ source.toList.length := by
    rw [hsource, List.length_append]
    exact (Text.length_le_flatMap (fun n => by simp [line]) ns).trans (Nat.le_add_right _ _)
  rw [readAhead]
  generalize source.toList.length = steps at hlength
  rw [hsource, Text.readWhile_flatMap hitem hstop hlength]
  simp

end NamedType

/-! ## Types of an endpoint -/

/-- The text of the type that a fragment declares under a name. -/
def Code.Fragment.aliasOf? (name : String) : Code.Fragment → Option String
  | .line text => do
    let type ← text.toList.dropPrefix? (aliasStart name).toList
    let type ← type.dropSuffix? [';']
    return String.ofList type
  | _ => none

theorem Code.Fragment.eq_of_aliasOf? {fragment : Code.Fragment} {name type : String}
    (h : fragment.aliasOf? name = some type) : fragment = .line (aliasLine name type) := by
  cases fragment with
  | line text =>
    obtain ⟨behind, hstart, h⟩ := Option.bind_eq_some_iff.1 h
    obtain ⟨cs, hend, h⟩ := Option.bind_eq_some_iff.1 h
    obtain rfl := Option.some.inj h
    obtain ⟨ending, hbehind, hending⟩ := List.dropSuffix?_eq_some_iff.1 hend
    obtain rfl : ending = [';'] := eq_of_beq hending
    have htext := Text.dropPrefix?_eq_some_iff.1 hstart
    have hline : (aliasLine name (String.ofList cs)).toList =
        (aliasStart name).toList ++ (cs ++ [';']) := by
      simp only [aliasLine, String.toList_append, String.toList_ofList, List.append_assoc]
      rfl
    rw [line.injEq, ← String.toList_inj, htext, hbehind, hline]
  | raw | indent | block | doc => cases h

theorem Code.Fragment.aliasOf?_aliasLine (name other type : String)
    (h : ∀ rest, name.toList <+: other.toList ++ rest → name = other) :
    (Code.Fragment.line (aliasLine other type)).aliasOf? name =
      if other = name then some type else none := by
  have htext : (aliasLine other type).toList =
      (aliasStart other).toList ++ (type.toList ++ [';']) := by
    simp only [aliasLine, String.toList_append, List.append_assoc]
    rfl
  rw [aliasOf?, htext]
  by_cases heq : other = name
  · have hend : (type.toList ++ [';']).dropSuffix? [';'] = some type.toList :=
      List.dropSuffix?_eq_some_iff.2 ⟨[';'], rfl, beq_self_eq_true _⟩
    rw [heq, Text.dropPrefix?_append, if_pos rfl]
    simp [hend]
  · have hnone : ((aliasStart other).toList ++ (type.toList ++ [';'])).dropPrefix?
        (aliasStart name).toList = none := by
      refine Option.eq_none_iff_forall_ne_some.2 fun rest hrest => heq ?_
      have hboth := Text.dropPrefix?_eq_some_iff.1 hrest
      simp only [aliasStart, String.toList_append, List.append_assoc, List.append_cancel_left_eq]
        at hboth
      exact (h _ ⟨_, hboth.symm⟩).symm
    rw [hnone, if_neg heq]
    rfl

end SwaggerClient
