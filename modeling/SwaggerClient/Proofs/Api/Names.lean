import Mathlib.Data.List.Nodup
import SwaggerClient.Client.Endpoint

/-!
# Names of the types of an endpoint

No verb begins another one, and none of the words that end the type names of an endpoint
ends another one.  So a type name says which verb, which identifier and which of the types
of the endpoint it is for.
-/

namespace SwaggerClient

/-- What the type names of an endpoint end in. -/
def typeSuffixes : List String :=
  ["Path", "Query", "Body", "Res"]

/-- The names that an endpoint may declare: its function and its types. -/
def EndpointNames.declared (names : EndpointNames) : List String :=
  [names.function, names.pathType, names.queryType, names.bodyType, names.responseType]

/-- The names of the types that an endpoint may declare. -/
def EndpointNames.types (names : EndpointNames) : List String :=
  [names.pathType, names.queryType, names.bodyType, names.responseType]

/-- What the type names of the endpoint of a verb and an identifier begin with. -/
def typeStem (method : HttpMethod) (identifier : String) : String :=
  Text.capitalize method.name ++ identifier

/-! ## Taking names apart -/

/-- Where no word begins another one, a word and the text behind it can be told from the
two together. -/
theorem append_inj_of_prefixFree {α : Type} (word : α → String)
    (hfree : ∀ a b, (word a).toList <+: (word b).toList → a = b) {a b : α} {i j : String}
    (h : word a ++ i = word b ++ j) : a = b ∧ i = j := by
  have hlist : (word a).toList ++ i.toList = (word b).toList ++ j.toList := by
    simpa using congrArg String.toList h
  have hprefix : (word b).toList <+: (word a).toList ++ i.toList := by
    rw [hlist]
    exact List.prefix_append _ _
  have hab : a = b := by
    rcases List.prefix_or_prefix_of_prefix (List.prefix_append _ _) hprefix with hab | hba
    · exact hfree a b hab
    · exact (hfree b a hba).symm
  subst hab
  exact ⟨rfl, String.toList_inj.1 (by simpa using hlist)⟩

theorem eq_of_capitalized_prefix (m n : HttpMethod)
    (h : (Text.capitalize m.name).toList <+: (Text.capitalize n.name).toList) : m = n := by
  cases m <;> cases n <;> first | rfl | exact absurd h (by decide)

theorem eq_of_typeSuffix {s t : String} (hs : s ∈ typeSuffixes) (ht : t ∈ typeSuffixes)
    (h : s.toList <:+ t.toList) : s = t := by
  have hall : ∀ s ∈ typeSuffixes, ∀ t ∈ typeSuffixes, s.toList <:+ t.toList → s = t := by decide
  exact hall s hs t ht h

/-- A type name says which endpoint and which of its types it is for. -/
theorem typeName_inj {m n : HttpMethod} {i j s t : String} (hs : s ∈ typeSuffixes)
    (ht : t ∈ typeSuffixes) (h : typeStem m i ++ s = typeStem n j ++ t) :
    m = n ∧ i = j ∧ s = t := by
  have hlist : (typeStem m i).toList ++ s.toList = (typeStem n j).toList ++ t.toList := by
    simpa using congrArg String.toList h
  have hsuffix : t.toList <:+ (typeStem m i).toList ++ s.toList := by
    rw [hlist]
    exact List.suffix_append _ _
  have hst : s = t := by
    rcases List.suffix_or_suffix_of_suffix (List.suffix_append _ _) hsuffix with hst | hts
    · exact eq_of_typeSuffix hs ht hst
    · exact (eq_of_typeSuffix ht hs hts).symm
  subst hst
  have hstem : typeStem m i = typeStem n j := by simpa using h
  obtain ⟨hm, hi⟩ := append_inj_of_prefixFree (fun m : HttpMethod => Text.capitalize m.name)
    eq_of_capitalized_prefix hstem
  exact ⟨hm, hi, rfl⟩

/-- An endpoint declares its function and a type for each ending. -/
theorem EndpointNames.mem_declared_iff {method : HttpMethod} {url name : String} :
    name ∈ (EndpointNames.of method url).declared ↔
      name = method.name ++ UrlTemplate.identifier url ∨
        ∃ s ∈ typeSuffixes, name = typeStem method (UrlTemplate.identifier url) ++ s := by
  simp [declared, EndpointNames.of, typeSuffixes, typeStem]

theorem EndpointNames.types_of (method : HttpMethod) (url : String) :
    (EndpointNames.of method url).types =
      typeSuffixes.map (typeStem method (UrlTemplate.identifier url) ++ ·) :=
  rfl

/-- Of the type names of an endpoint only one can come first in a text. -/
theorem EndpointNames.eq_of_prefix {method : HttpMethod} {url s t : String} {rest : List Char}
    (hs : s ∈ (EndpointNames.of method url).types) (ht : t ∈ (EndpointNames.of method url).types)
    (h : s.toList <+: t.toList ++ rest) : s = t := by
  have hheads : ∀ s ∈ typeSuffixes, ∀ t ∈ typeSuffixes, s.toList.head? = t.toList.head? → s = t := by
    decide
  have hne : ∀ s ∈ typeSuffixes, s.toList.head?.isSome := by decide
  rw [types_of] at hs ht
  obtain ⟨a, ha, rfl⟩ := List.mem_map.1 hs
  obtain ⟨b, hb, rfl⟩ := List.mem_map.1 ht
  rw [String.toList_append, String.toList_append, List.append_assoc,
    List.prefix_append_right_inj] at h
  obtain ⟨more, hmore⟩ := h
  have hhead := congrArg List.head? hmore
  rw [List.head?_append, List.head?_append, Option.or_of_isSome (hne a ha),
    Option.or_of_isSome (hne b hb)] at hhead
  rw [hheads a ha b hb hhead]

namespace Endpoint

variable {e : Endpoint} {method : HttpMethod} {url : String}

/-- The types that an endpoint declares are among its four, in their order. -/
theorem sublist_names_declarations (e : Endpoint) :
    (e.declarations.map (·.name)).Sublist
      [e.names.pathType, e.names.queryType, e.names.bodyType, e.names.responseType] := by
  have hpath : (e.pathDeclaration.map (·.name)).Sublist [e.names.pathType] := by
    rw [pathDeclaration]
    split <;> simp
  have hquery : (e.queryDeclaration.map (·.name)).Sublist [e.names.queryType] := by
    rw [queryDeclaration]
    split <;> simp
  have hbody : (e.bodyDeclaration.map (·.name)).Sublist [e.names.bodyType] := by
    rw [bodyDeclaration]
    split <;> simp
  simpa [declarations, responseDeclaration] using
    ((hpath.append hquery).append hbody).append (List.Sublist.refl [e.names.responseType])

/-- The type names of an endpoint are its stem with different words behind it. -/
theorem sublist_typeSuffixes (h : e.names = .of method url) :
    (e.declarations.map (·.name)).Sublist
      (typeSuffixes.map (typeStem method (UrlTemplate.identifier url) ++ ·)) := by
  have hnames : typeSuffixes.map (typeStem method (UrlTemplate.identifier url) ++ ·) =
      [e.names.pathType, e.names.queryType, e.names.bodyType, e.names.responseType] := by
    rw [h]
    rfl
  rw [hnames]
  exact e.sublist_names_declarations

theorem exists_typeSuffix (h : e.names = .of method url) {name : String}
    (hname : name ∈ e.declarations.map (·.name)) :
    ∃ s ∈ typeSuffixes, typeStem method (UrlTemplate.identifier url) ++ s = name :=
  List.mem_map.1 ((sublist_typeSuffixes h).subset hname)

theorem nodup_names_declarations (h : e.names = .of method url) :
    (e.declarations.map (·.name)).Nodup := by
  refine (sublist_typeSuffixes h).nodup (List.Nodup.map ?_ (by decide))
  intro s t hst
  simpa using hst

end Endpoint

end SwaggerClient
