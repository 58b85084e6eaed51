import SwaggerClient.Proofs.Client.Aliases
import SwaggerClient.Proofs.Client.RequestUrl
import SwaggerClient.Proofs.Client.Scope
import SwaggerClient.Proofs.Client.SelfContained
import SwaggerClient.Proofs.TypeExpr.RoundTrip

/-!
# Path parameters

The placeholders of a URL template come up three times in the code of an endpoint: as members of
the type of its path parameters, as entries of the pattern that takes them apart, and as variables
in the text of the URL.  All three are read from the code, and have the same names in the same
order, and the same keys and variables for them.
-/

namespace SwaggerClient

/-! ## Patterns with their keys -/

namespace Pattern

/-- An entry of a pattern. -/
structure Entry where
  /-- The name of the property. -/
  property : String
  /-- The key as it is written. -/
  key : String
  /-- The variable that gets the value. -/
  binding : String
  deriving DecidableEq, Repr

/-- Reads an entry of a pattern.  What the key takes up of the text is how it is written. -/
def readEntry (cs : List Char) : Option (Entry × List Char) := do
  let (property, behind) ← TypeText.readKey cs
  let (binding, rest) ← readField cs
  return (⟨property, String.ofList (cs.take (cs.length - behind.length)), binding⟩, rest)

/-- The entries of the pattern of an object. -/
def entries (pattern : String) : Option (List Entry) :=
  match pattern.toList with
  | '{' :: cs => do
    let (entries, rest) ← Text.readItems readEntry [','] ['}'] (cs.length + 1) cs
    if rest.isEmpty then some entries else none
  | _ => none

example : entries "\x7bid,'user-id':userId\x7d" =
    some [⟨"id", "id", "id"⟩, ⟨"user-id", "'user-id'", "userId"⟩] := by
  decide +kernel

/-- The entry of a path parameter. -/
def pathEntry (name : String) : Entry :=
  ⟨name, propertyKey name, bindingName name⟩

/-- The field of a path parameter begins with its key. -/
theorem exists_pathField_append (name : String) {rest : List Char}
    (hr : TypeText.Ahead [',', '}'] rest) :
    ∃ behind, (pathField name).toList ++ rest = (propertyKey name).toList ++ behind ∧
      ∀ c ∈ behind.head?, isIdentifierChar c = false := by
  by_cases heq : bindingName name = name
  · have hidentifier : isIdentifier name := heq ▸ isIdentifier_bindingName name
    exact ⟨rest, by simp [pathField, heq, propertyKey, hidentifier],
      hr.all (by simp [isIdentifierChar])⟩
  · refine ⟨':' :: ((bindingName name).toList ++ rest), ?_, by simp [isIdentifierChar]⟩
    simp only [pathField, heq, if_false, String.toList_append, List.append_assoc]
    rfl

theorem readEntry_pathField (name : String) {rest : List Char}
    (hr : TypeText.Ahead [',', '}'] rest) :
    readEntry ((pathField name).toList ++ rest) = some (pathEntry name, rest) := by
  obtain ⟨behind, htext, hstop⟩ := exists_pathField_append name hr
  have hfield := readField_pathField name hr
  rw [htext] at hfield ⊢
  have htake : ((propertyKey name).toList ++ behind).take
      (((propertyKey name).toList ++ behind).length - behind.length) =
        (propertyKey name).toList := by
    rw [List.length_append, Nat.add_sub_cancel, List.take_left]
  rw [readEntry, TypeText.readKey_propertyKey name hstop]
  simp only [Option.bind_eq_bind, Option.bind_some, hfield, htake, String.ofList_toList]
  rfl

/-- The pattern of path parameters has an entry for each of them. -/
theorem entries_destructured {names : List String} (hne : names ≠ []) (type : String) :
    entries (Code.Param.destructured (names.map pathField) type).pattern =
      some (names.map pathEntry) := by
  have hread := readItems_pathFields (fun name _ hr => readEntry_pathField name hr) hne
    (List.append_nil _).symm
  rw [entries, toList_destructured]
  simp only [hread]
  rfl

end Pattern

/-! ## Texts of URLs -/

namespace UrlTemplate

/-- Whether a text is made of the pieces of a template by putting variables in for the placeholders
that have a name.  Everything else is as it is in the template. -/
inductive Interpolates : List Piece → List Char → List String → Prop
  | nil : Interpolates [] [] []
  | char {c : Char} {ps : List Piece} {text : List Char} {xs : List String}
      (h : Interpolates ps text xs) : Interpolates (.char c :: ps) (c :: text) xs
  | empty {ps : List Piece} {text : List Char} {xs : List String} (h : Interpolates ps text xs) :
      Interpolates (.placeholder [] :: ps) ('{' :: '}' :: text) xs
  | named {name : List Char} {ps : List Piece} {text : List Char} {x : String} {xs : List String}
      (hname : name ≠ []) (hx : isIdentifier x) (h : Interpolates ps text xs) :
      Interpolates (.placeholder name :: ps) ('$' :: '{' :: (x.toList ++ '}' :: text)) (x :: xs)

/-- The names in pieces. -/
def namesIn (ps : List Piece) : List String :=
  ps.filterMap Piece.name?

/-- The bindings of the names in pieces are put in for them. -/
theorem interpolates_substituted (ps : List Piece) :
    Interpolates ps (ps.flatMap Piece.substituted) ((namesIn ps).map bindingName) := by
  induction ps with
  | nil => exact .nil
  | cons p ps ih =>
    rcases p with c | (_ | ⟨c, name⟩)
    · exact .char ih
    · exact .empty ih
    · have hnamed := Interpolates.named (List.cons_ne_nil c name)
        (isIdentifier_bindingName (String.ofList (c :: name))) ih
      simpa [namesIn, Piece.name?, Piece.substituted] using hnamed

/-- A text tells which variables were put in. -/
theorem Interpolates.unique {ps : List Piece} {text : List Char} {xs ys : List String}
    (hx : Interpolates ps text xs) (hy : Interpolates ps text ys) : xs = ys := by
  induction hx generalizing ys with
  | nil =>
    cases hy
    rfl
  | char _ ih =>
    cases hy with
    | char hy => exact ih hy
  | empty _ ih =>
    cases hy with
    | empty hy => exact ih hy
  | @named name ps text x xs hname hx h ih =>
    generalize hwhole : '$' :: '{' :: (x.toList ++ '}' :: text) = whole at hy
    cases hy with
    | empty => exact absurd rfl hname
    | @named _ _ text' y ys _ hy h' =>
      have htext : x.toList ++ '}' :: text = y.toList ++ '}' :: text' := by simpa using hwhole
      have hstop : ∀ {z : String}, isIdentifier z → ∀ c ∈ z.toList, isIdentifierChar c :=
        fun hz => isIdentifierChar_of_isIdentifierChars hz
      have htake := congrArg (List.takeWhile isIdentifierChar) htext
      have hdrop := congrArg (List.dropWhile isIdentifierChar) htext
      rw [takeWhile_append_stop (hstop hx) (by simp [isIdentifierChar]),
        takeWhile_append_stop (hstop hy) (by simp [isIdentifierChar])] at htake
      rw [dropWhile_append_stop (hstop hx) (by simp [isIdentifierChar]),
        dropWhile_append_stop (hstop hy) (by simp [isIdentifierChar])] at hdrop
      obtain rfl := String.toList_inj.1 htake
      obtain rfl := (List.cons.inj hdrop).2
      rw [ih h']

/-- The text of a template is the template itself exactly when there is nothing to put in. -/
theorem substituted_eq_iff {cs : List Char} {ps : List Piece} (h : Cut cs ps) :
    ps.flatMap Piece.substituted = cs ↔ namesIn ps = [] := by
  induction h with
  | nil => simp [namesIn]
  | char _ _ ih => simpa [namesIn, Piece.name?, Piece.substituted] using ih
  | @placeholder name cs ps _ _ ih =>
    cases name with
    | nil => simpa [namesIn, Piece.name?, Piece.substituted] using ih
    | cons c name => simp [namesIn, Piece.name?, Piece.substituted]

end UrlTemplate

/-! ## The code of an endpoint -/

/-- The parameters of the function that a fragment opens. -/
def Code.Fragment.params? (names : EndpointNames) : Code.Fragment → Option (List Code.Param)
  | .block header _ _ => names.readSignature header
  | _ => none

namespace Endpoint

variable (e : Endpoint) (style : ErrorStyle)

/-- The texts of the types that the code of an endpoint declares as the type of the path
parameters. -/
def pathAliases : List String :=
  (e.fragments style).filterMap (·.aliasOf? e.names.pathType)

/-- The patterns of the parameters that have the type of the path parameters, in the functions that
the code of an endpoint opens. -/
def pathPatterns : List String :=
  let params := ((e.fragments style).filterMap (·.params? e.names)).flatten
  (params.filter (·.type == e.names.pathType)).map (·.pattern)

/-- The member of a path parameter: a string that must be given. -/
def pathMember (name : String) : Member (TypeExpr String) :=
  ⟨name, false, none, .primitive .string⟩

/-- Whether the code of an endpoint has the path parameters of some names. -/
structure WiresPath (names : List String) : Prop where
  /-- The text of the URL is the template with the variables of the names put in, in order. -/
  url : ∃ ps, UrlTemplate.Cut e.url.toList ps ∧ UrlTemplate.namesIn ps = names ∧
    ∀ xs, UrlTemplate.Interpolates ps (interpolateUrl e.url).toList xs ↔ xs = names.map bindingName
  /-- The function requests the URL with this text. -/
  request : ∃ head tail, Code.charsOfAll 0 (e.fragments style) =
    head ++ "url: `".toList ++ Code.hanging 3 (interpolateUrl e.url).toList ++ "`,\n".toList ++ tail
  /-- Without a name there are no path parameters, and nothing is put in. -/
  absent : names = [] →
    e.pathAliases style = [] ∧ e.pathPatterns style = [] ∧ interpolateUrl e.url = e.url
  /-- With a name there is one type and one parameter for them.  The type is declared on a line of
  the code, and the parameter is the first one of the function there. -/
  present : names ≠ [] → ∃ type pattern,
    e.pathAliases style = [type] ∧ e.pathPatterns style = [pattern] ∧ interpolateUrl e.url ≠ e.url ∧
      TypeText.read type = some (.object (names.map pathMember) none) ∧
      type.toList = '{' :: (names.flatMap (fun name =>
        '\n' :: (propertyKey name).toList ++ ":string".toList) ++ ['\n', '}']) ∧
      Pattern.entries pattern = some (names.map Pattern.pathEntry) ∧
      (aliasLine e.names.pathType type).toList ++ ['\n'] <:+:
        Code.charsOfAll 0 (e.fragments style) ∧
      e.names.functionStart.toList ++ (Code.Param.text ⟨pattern, e.names.pathType⟩).toList <:+:
        Code.charsOfAll 0 (e.fragments style)
  /-- The function binds the variables that are put in. -/
  bound : ∃ bound, e.boundNames style = some bound ∧ names.map bindingName ⊆ bound

variable {e}

/-- No other type of an endpoint has the name of the type of the path parameters. -/
theorem ne_pathType {method : HttpMethod} {url : String} (h : e.names = .of method url) :
    e.names.queryType ≠ e.names.pathType ∧ e.names.bodyType ≠ e.names.pathType ∧
      e.names.responseType ≠ e.names.pathType := by
  simp [h, EndpointNames.of]

theorem mem_types_of_mem_declarations {t : TypeDeclaration} (ht : t ∈ e.declarations) :
    t.name ∈ e.names.types :=
  e.sublist_names_declarations.subset (List.mem_map_of_mem ht)

/-- The fragments of the types of an endpoint declare the path parameters in those of their name. -/
theorem filterMap_aliasOf? {method : HttpMethod} {url : String} (h : e.names = .of method url) :
    (e.declarations.flatMap fun t => t.alias.fragments).filterMap (·.aliasOf? e.names.pathType) =
      e.declarations.flatMap fun t =>
        if t.name = e.names.pathType then [t.type.render] else [] := by
  rw [List.filterMap_flatMap]
  refine List.flatMap_congr fun t ht => ?_
  have hline := Code.Fragment.aliasOf?_aliasLine e.names.pathType t.name t.type.render
    fun rest hprefix => by
      have hmem := mem_types_of_mem_declarations ht
      have hpath : e.names.pathType ∈ e.names.types := List.mem_cons_self
      rw [h] at hmem hpath hprefix ⊢
      exact EndpointNames.eq_of_prefix hpath hmem hprefix
  have hdoc : (Code.docFragments t.doc).filterMap (·.aliasOf? e.names.pathType) = [] := by
    cases t.doc <;> rfl
  have hfragments : t.alias.fragments =
      Code.docFragments t.doc ++ [.line (aliasLine t.name t.type.render)] := rfl
  rw [hfragments, List.filterMap_append, hdoc, List.nil_append, List.filterMap_cons, hline]
  split <;> simp_all

theorem pathAliases_eq {method : HttpMethod} {url : String} (h : e.names = .of method url) :
    e.pathAliases style = if e.pathParams = [] then [] else [e.pathShape.render] := by
  obtain ⟨hquery, hbody, hresponse⟩ := ne_pathType h
  have hfunction : (e.function style).fragments.filterMap (·.aliasOf? e.names.pathType) = [] := rfl
  have hfragments : e.fragments style = e.declarations.flatMap (fun t => t.alias.fragments)
      ++ (e.function style).fragments := rfl
  rw [pathAliases, hfragments, List.filterMap_append, filterMap_aliasOf? h, hfunction,
    List.append_nil, declarations, List.flatMap_append, List.flatMap_append, List.flatMap_append,
    pathDeclaration, queryDeclaration, bodyDeclaration, responseDeclaration]
  by_cases hp : e.pathParams = [] <;> by_cases hq : e.query = [] <;> cases e.body <;>
    simp [hp, hq, hquery, hbody, hresponse]

/-- The code of an endpoint opens one function. -/
theorem filterMap_params? {method : HttpMethod} {url : String} (h : e.names = .of method url) :
    (e.fragments style).filterMap (·.params? e.names) = [e.params] := by
  have hdeclarations : (e.declarations.flatMap fun t => t.alias.fragments).filterMap
      (·.params? e.names) = [] := by
    rw [List.filterMap_flatMap]
    refine List.flatMap_eq_nil_iff.2 fun t _ => ?_
    rw [TypeDeclaration.alias, Code.TypeAlias.fragments]
    cases t.doc <;> rfl
  have hfragments : e.fragments style = e.declarations.flatMap (fun t => t.alias.fragments)
      ++ (Code.docFragments (e.function style).doc
        ++ [.block (e.function style).signature (e.function style).body (some "\x7d")]) := rfl
  have hdoc : (Code.docFragments (e.function style).doc).filterMap (·.params? e.names) = [] := rfl
  rw [hfragments, List.filterMap_append, hdeclarations, List.filterMap_append, hdoc,
    List.filterMap_cons, Code.Fragment.params?, readSignature_function h]
  rfl

theorem pathPatterns_eq {method : HttpMethod} {url : String} (h : e.names = .of method url) :
    e.pathPatterns style = if e.pathParams = [] then [] else
      [(Code.Param.destructured (e.pathParams.map pathField) e.names.pathType).pattern] := by
  obtain ⟨hquery, hbody, -⟩ := ne_pathType h
  rw [pathPatterns, filterMap_params? style h, params]
  by_cases hp : e.pathParams = [] <;> by_cases hq : e.query = [] <;> cases hb : e.body <;>
    simp [hp, hq, hquery, hbody, Code.Param.destructured]

/-- A type of path parameters that is read in the fragments is declared in the code. -/
theorem aliasLine_infix {type : String} (h : type ∈ e.pathAliases style) :
    (aliasLine e.names.pathType type).toList ++ ['\n'] <:+:
      Code.charsOfAll 0 (e.fragments style) := by
  obtain ⟨fragment, hmem, htype⟩ := List.mem_filterMap.1 h
  obtain rfl := Code.Fragment.eq_of_aliasOf? htype
  have hinfix := Code.chars_infix_charsOfAll 0 hmem
  rwa [Code.chars_line, Code.textAt_zero] at hinfix

/-- A pattern of path parameters that is read in the fragments opens the parameters of the function
in the code. -/
theorem pathParam_infix {method : HttpMethod} {url pattern : String}
    (hnames : e.names = .of method url) (h : pattern ∈ e.pathPatterns style) :
    e.names.functionStart.toList ++ (Code.Param.text ⟨pattern, e.names.pathType⟩).toList <:+:
      Code.charsOfAll 0 (e.fragments style) := by
  rw [pathPatterns_eq style hnames] at h
  split at h
  · cases h
  next hne =>
    obtain rfl := List.mem_singleton.1 h
    obtain ⟨others, hparams⟩ : ∃ others, e.params =
        .destructured (e.pathParams.map pathField) e.names.pathType :: others :=
      ⟨_, by rw [params, if_neg (by simpa using hne), List.singleton_append, List.cons_append]⟩
    have hblock : Code.Fragment.block (e.function style).signature (e.function style).body
        (some "\x7d") ∈ e.fragments style := by
      simp [fragments, ModulePart.fragments, Code.Function.fragments]
    have hinfix := Code.chars_infix_charsOfAll 0 hblock
    rw [Code.chars_block, Code.textAt_zero, List.append_assoc, List.append_assoc] at hinfix
    have hsignature := prefix_signature_function hparams style
    exact (hsignature.trans (List.prefix_append _ _)).isInfix.trans hinfix

/-- The type of the path parameters has a member for each of them. -/
theorem pathShape_eq (hne : e.pathParams ≠ []) :
    e.pathShape = .object (e.pathParams.map pathMember) none := by
  simp [pathShape, TypeExpr.ofMembers, hne, pathMember]

theorem read_pathShape (hne : e.pathParams ≠ []) :
    TypeText.read e.pathShape.render = some (.object (e.pathParams.map pathMember) none) := by
  have hreadable : e.pathShape.Readable := by
    rw [pathShape_eq hne]
    constructor
    · refine .object (fun m hm => ?_) (by simp)
      obtain ⟨name, -, rfl⟩ := List.mem_map.1 hm
      exact .primitive .string
    · simp [pathMember, TypeExpr.references]
  rw [TypeExpr.render, TypeText.read_renderAt hreadable, pathShape_eq hne,
    TypeExpr.norm_object_of_ne (.inl (by simpa using hne)), List.map_map]
  rfl

theorem toList_pathShape (hne : e.pathParams ≠ []) :
    e.pathShape.render.toList = '{' :: (e.pathParams.flatMap (fun name =>
      '\n' :: (propertyKey name).toList ++ ":string".toList) ++ ['\n', '}']) := by
  have hline : ∀ name, TypeText.memberLine (pathMember name) =
      '\n' :: (propertyKey name).toList ++ ":string".toList := by
    intro name
    have hkey : keyHead none (memberKey name false) = (propertyKey name).toList ++ [':'] := rfl
    have htype : (TypeExpr.primitive .string).chars .member = "string".toList := rfl
    simp only [TypeText.memberLine, pathMember, hkey, htype, List.cons_append, List.append_assoc]
    rfl
  rw [TypeExpr.render, TypeExpr.renderAt, String.toList_ofList, pathShape_eq hne,
    TypeText.chars_object _ (.inl (by simpa using hne)), List.flatMap_map]
  simp [hline, TypeText.indexLine]

/-- The code of an endpoint has the path parameters of its URL template. -/
theorem wiresPath {method : HttpMethod} (hnames : e.names = .of method e.url)
    (hparams : e.pathParams = UrlTemplate.placeholders e.url) :
    e.WiresPath style (UrlTemplate.placeholders e.url) := by
  have hcut : UrlTemplate.Cut e.url.toList (UrlTemplate.pieces e.url) :=
    UrlTemplate.cut_iff.2 rfl
  have htext : interpolateUrl e.url = e.url ↔ e.pathParams = [] := by
    rw [← String.toList_inj, interpolateUrl, String.toList_ofList, hparams]
    exact UrlTemplate.substituted_eq_iff hcut
  have halias := pathAliases_eq style hnames
  have hpattern := pathPatterns_eq style hnames
  rw [← hparams]
  refine ⟨?_, ?_, fun hnone => ?_, fun hsome => ?_, ?_⟩
  · refine ⟨UrlTemplate.pieces e.url, hcut, hparams.symm, fun xs => ?_⟩
    have hput := UrlTemplate.interpolates_substituted (UrlTemplate.pieces e.url)
    rw [interpolateUrl, String.toList_ofList, hparams]
    constructor
    · intro h
      exact h.unique hput
    · rintro rfl
      exact hput
  · refine ⟨e.declarations.flatMap TypeDeclaration.lines ++ e.functionHead style ++ Code.blanks 3,
      Code.charsOfAll 3 (Code.ObjectLiteral.propertyFragments ⟨e.request.properties.tail⟩)
        ++ functionTail style, ?_⟩
    have hclose : "`,\n".toList = ['\x60'] ++ ",\n".toList := by decide
    rw [charsOfAll_fragments, ← functionText, functionText_eq, urlHead, urlLiteral, urlTail, hclose]
    simp only [List.append_assoc]
  · rw [halias, hpattern, if_pos hnone, if_pos hnone]
    exact ⟨rfl, rfl, htext.2 hnone⟩
  · rw [if_neg hsome] at halias hpattern
    exact ⟨_, _, halias, hpattern, fun h => hsome (htext.1 h), read_pathShape hsome,
      toList_pathShape hsome, Pattern.entries_destructured hsome _,
      aliasLine_infix style (halias ▸ List.mem_singleton_self _),
      pathParam_infix style hnames (hpattern ▸ List.mem_singleton_self _)⟩
  · refine ⟨_, boundNames_eq hnames style, fun x hx => ?_⟩
    exact List.mem_append_left _ (List.mem_append_left _ hx)

end Endpoint

/-- The code of an endpoint stands at the end of a part of the module of its group. -/
theorem Api.exists_suffix_groupSource (api : Api) (style : ErrorStyle) {e : Endpoint}
    (he : e ∈ api.endpoints) :
    ∃ source ∈ api.groupSource style e.group,
      Code.charsOfAll 0 (e.fragments style) <:+ source.toList := by
  have hmem : e ∈ (api.moduleParts e.group).map (·.endpoint) := by
    rw [moduleParts, endpoints_parts]
    exact List.mem_filter.2 ⟨he, beq_self_eq_true _⟩
  obtain ⟨part, hp, rfl⟩ := List.mem_map.1 hmem
  refine ⟨Code.render (part.fragments style), List.mem_map_of_mem hp, ?_⟩
  rw [part.toList_render style]
  exact List.suffix_append _ _

/-- The code of every operation, which stands in the module of its group, has the path parameters of
the URL template. -/
theorem Document.pathParameters_wired (d : Document) (style : ErrorStyle) :
    List.Forall₂ (fun (route : Route) (e : Endpoint) =>
        e.url = route.url ∧
        (∃ source ∈ d.api.groupSource style e.group,
          Code.charsOfAll 0 (e.fragments style) <:+ source.toList) ∧
        e.WiresPath style (UrlTemplate.placeholders route.url))
      d.routes d.api.endpoints := by
  have hall : ∀ e ∈ d.api.endpoints, ∃ source ∈ d.api.groupSource style e.group,
      Code.charsOfAll 0 (e.fragments style) <:+ source.toList := fun e he =>
    d.api.exists_suffix_groupSource style he
  rw [api_endpoints_eq_map] at hall ⊢
  rw [List.forall₂_map_right_iff, List.forall₂_same]
  intro route hr
  exact ⟨rfl, hall _ (List.mem_map_of_mem hr), Endpoint.wiresPath style rfl rfl⟩

end SwaggerClient
