import SwaggerClient.Client.Endpoint
import SwaggerClient.Proofs.Api.Names
import SwaggerClient.Proofs.Name.Binding
import SwaggerClient.Proofs.Text.Reading
import SwaggerClient.Proofs.TypeExpr.Token

/-!
# Reading the signature of a client function

The line that opens a client function has a pattern, a colon and the name of a type for every
parameter.  A pattern tells where it ends, and only one of the type names of an endpoint can stand
behind the colon, so the line tells the parameters.
-/

namespace SwaggerClient

variable {rest : List Char}

/-! ## Patterns -/

namespace Pattern

/-- Reads the name of a variable; a reserved word is none. -/
def readVariable (cs : List Char) : Option (String × List Char) :=
  let name := cs.takeWhile isIdentifierChar
  if isIdentifierChars name && !reservedWords.contains (String.ofList name) then
    some (String.ofList name, cs.dropWhile isIdentifierChar)
  else none

/-- Reads a field of a pattern and gives the variable that it binds: the one behind the key,
or else the one that the key itself names. -/
def readField (cs : List Char) : Option (String × List Char) := do
  let (_, rest) ← TypeText.readKey cs
  match rest with
  | ':' :: rest => readVariable rest
  | _ => readVariable cs

/-- Reads the variables that a pattern binds: a variable, or the fields of an object. -/
def readVariables : List Char → Option (List String × List Char)
  | '{' :: cs => Text.readItems readField [','] ['}'] (cs.length + 1) cs
  | cs => (readVariable cs).map fun (x, rest) => ([x], rest)

/-- The variables that a pattern binds. -/
def read (pattern : String) : Option (List String) := do
  let (xs, rest) ← readVariables pattern.toList
  if rest.isEmpty then some xs else none

example : read "\x7bid,'user-id':userId,class:class_\x7d" = some ["id", "userId", "class_"] := by
  decide +kernel

theorem readVariable_append {name : String} (hname : isIdentifier name)
    (hfree : name ∉ reservedWords) (hr : ∀ c ∈ rest.head?, isIdentifierChar c = false) :
    readVariable (name.toList ++ rest) = some (name, rest) := by
  have hall := isIdentifierChar_of_isIdentifierChars hname
  rw [isIdentifier] at hname
  simp [readVariable, takeWhile_append_stop hall hr, dropWhile_append_stop hall hr, hname, hfree]

/-- The field of a path parameter binds its variable. -/
theorem readField_pathField (name : String) (hr : TypeText.Ahead [',', '}'] rest) :
    readField ((pathField name).toList ++ rest) = some (bindingName name, rest) := by
  have hstop : ∀ c ∈ rest.head?, isIdentifierChar c = false := hr.all (by simp [isIdentifierChar])
  have hvariable := readVariable_append (isIdentifier_bindingName name)
    (bindingName_not_mem_reservedWords name) hstop
  by_cases heq : bindingName name = name
  · have hfield : (pathField name).toList = (bindingName name).toList := by simp [pathField, heq]
    have hkey : propertyKey (bindingName name) = bindingName name := by
      simp [propertyKey, isIdentifier_bindingName]
    have hread := TypeText.readKey_propertyKey (bindingName name) hstop
    rw [hkey] at hread
    have hcolon : ∀ cs, rest ≠ ':' :: cs := by
      rintro cs rfl
      exact absurd (hr ':' rfl) (by decide)
    rw [readField, hfield, hread]
    simpa [hcolon] using hvariable
  · have hfield : (pathField name).toList ++ rest =
        (propertyKey name).toList ++ ':' :: ((bindingName name).toList ++ rest) := by
      simp only [pathField, heq, if_false, String.toList_append, List.append_assoc]
      rfl
    have hcolon : ∀ c ∈ (':' :: ((bindingName name).toList ++ rest)).head?,
        isIdentifierChar c = false := by simp [isIdentifierChar]
    rw [readField, hfield, TypeText.readKey_propertyKey name hcolon]
    simpa using hvariable

/-- The text of the pattern of path parameters. -/
theorem toList_destructured (names : List String) (type : String) :
    (Code.Param.destructured (names.map pathField) type).pattern.toList =
      '{' :: ([','].intercalate (names.map fun name => (pathField name).toList) ++ ['}']) := by
  simp [Code.Param.destructured, Function.comp_def]

/-- What is read in the fields of path parameters one by one is read in all of them together. -/
theorem readItems_pathFields {α : Type} {item : List Char → Option (α × List Char)}
    {value : String → α}
    (hitem : ∀ name rest, TypeText.Ahead [',', '}'] rest →
      item ((pathField name).toList ++ rest) = some (value name, rest))
    {names : List String} (hne : names ≠ []) {cs : List Char}
    (hcs : cs = [','].intercalate (names.map fun name => (pathField name).toList) ++ ['}'] ++ rest) :
    Text.readItems item [','] ['}'] (cs.length + 1) cs = some (names.map value, rest) := by
  have hlength := Text.length_le_intercalate [','] (by simp)
    (names.map fun name => (pathField name).toList)
  have hsteps : names.length ≤ cs.length + 1 := by
    rw [List.length_map] at hlength
    rw [hcs, List.length_append, List.length_append]
    omega
  have hclose : ∀ rest : List Char, (['}'] ++ rest).dropPrefix? [','] = none := fun _ => rfl
  generalize cs.length + 1 = steps at hsteps
  rw [hcs, List.append_assoc]
  refine Text.readItems_intercalate hclose (fun name _ stop hstop rest => hitem name _ ?_) hne
    hsteps rest
  simp only [List.mem_cons, List.not_mem_nil, or_false] at hstop
  rcases hstop with rfl | rfl
  · exact .cons (by decide) rest
  · exact .cons (by decide) rest

/-- The pattern of path parameters binds their variables. -/
theorem readVariables_destructured {names : List String} (hne : names ≠ []) (type : String)
    (rest : List Char) :
    readVariables ((Code.Param.destructured (names.map pathField) type).pattern.toList ++ rest) =
      some (names.map bindingName, rest) := by
  rw [toList_destructured]
  exact readItems_pathFields (fun name _ hr => readField_pathField name hr) hne rfl

/-- A variable is a pattern for itself. -/
theorem readVariables_variable {name : String} (hname : isIdentifier name)
    (hfree : name ∉ reservedWords) (hr : ∀ c ∈ rest.head?, isIdentifierChar c = false) :
    readVariables (name.toList ++ rest) = some ([name], rest) := by
  obtain ⟨c, cs, hcs, hc⟩ := exists_of_isIdentifierChars hname
  have hread := readVariable_append hname hfree hr
  rw [hcs, List.cons_append] at hread ⊢
  unfold readVariables
  split
  next heq =>
    obtain ⟨rfl, -⟩ := List.cons.inj heq
    exact absurd hc (by decide)
  next => rw [hread]; rfl

theorem read_destructured {names : List String} (hne : names ≠ []) (type : String) :
    read (Code.Param.destructured (names.map pathField) type).pattern =
      some (names.map bindingName) := by
  have hread := readVariables_destructured hne type []
  rw [List.append_nil] at hread
  rw [read, hread]
  rfl

end Pattern

/-! ## Parameters -/

/-- Reads a parameter: its pattern, and the name of its type behind a colon. -/
def readParam (types : List String) (cs : List Char) : Option (Code.Param × List Char) := do
  let (_, behind) ← Pattern.readVariables cs
  let pattern := String.ofList (cs.take (cs.length - behind.length))
  let cs ← TypeText.expect ':' behind
  let (type, rest) ← Text.readOneOf String.toList types cs
  return (⟨pattern, type⟩, rest)

theorem readParam_text {types : List String} {p : Code.Param} {xs : List String}
    (hpattern : Pattern.readVariables (p.pattern.toList ++ ':' :: (p.type.toList ++ rest)) =
      some (xs, ':' :: (p.type.toList ++ rest)))
    (hp : p.type ∈ types) (hfree : ∀ t ∈ types, t.toList <+: p.type.toList ++ rest → t = p.type) :
    readParam types (p.text.toList ++ rest) = some (p, rest) := by
  have htext : p.text.toList ++ rest = p.pattern.toList ++ ':' :: (p.type.toList ++ rest) := by
    simp only [Code.Param.text, String.toList_append, List.append_assoc]
    rfl
  have htype := Text.readOneOf_append hp hfree
  have htake : (p.pattern.toList ++ ':' :: (p.type.toList ++ rest)).take
      ((p.pattern.toList ++ ':' :: (p.type.toList ++ rest)).length
        - (':' :: (p.type.toList ++ rest)).length) = p.pattern.toList := by
    rw [List.length_append, Nat.add_sub_cancel, List.take_left]
  rw [readParam, htext, hpattern]
  simp only [Option.bind_eq_bind, Option.bind_some, TypeText.expect_self, htype, htake,
    String.ofList_toList]
  rfl

namespace EndpointNames

variable (names : EndpointNames)

/-- The text that opens the function of an endpoint, up to its parameters. -/
def functionStart : String :=
  "export async function " ++ names.function ++ "("

/-- Reads the parameters of the function of an endpoint off the line that opens it. -/
def readSignature (signature : String) : Option (List Code.Param) := do
  let cs ← signature.toList.dropPrefix? names.functionStart.toList
  if cs = ") \x7b".toList then return []
  else
    let (params, rest) ←
      Text.readItems (readParam names.types) ", ".toList ") \x7b".toList (cs.length + 1) cs
    if rest.isEmpty then some params else none

end EndpointNames

namespace Endpoint

variable {e : Endpoint} {method : HttpMethod} {url : String} {p : Code.Param}

/-- The text of the line that opens a client function. -/
theorem signature_function (e : Endpoint) (style : ErrorStyle) :
    (e.function style).signature =
      e.names.functionStart ++ ", ".intercalate (e.params.map Code.Param.text) ++ ") \x7b" := by
  have htext : (e.function style).signature = "export " ++ "async " ++ "function "
      ++ e.names.function ++ "(" ++ ", ".intercalate (e.params.map Code.Param.text) ++ ") \x7b" := rfl
  have hstart : "export " ++ "async " ++ "function " = "export async function " := by decide
  rw [htext, hstart]
  rfl

theorem toList_signature_function (e : Endpoint) (style : ErrorStyle) :
    (e.function style).signature.toList = e.names.functionStart.toList
      ++ (", ".toList.intercalate (e.params.map (·.text.toList)) ++ ") \x7b".toList) := by
  simp only [signature_function, String.toList_append, String.toList_intercalate, List.map_map,
    Function.comp_def, List.append_assoc]

/-- The first parameter of a client function stands at its opening parenthesis. -/
theorem prefix_signature_function {others : List Code.Param} (hparams : e.params = p :: others)
    (style : ErrorStyle) :
    e.names.functionStart.toList ++ p.text.toList <+: (e.function style).signature.toList := by
  have hfirst : p.text.toList <+:
      ", ".toList.intercalate ((p :: others).map (·.text.toList)) := by
    cases others <;> simp
  rw [toList_signature_function, hparams, List.prefix_append_right_inj]
  exact hfirst.trans (List.prefix_append _ _)

/-- The patterns of a client function are one for the path parameters, and variables. -/
theorem mem_params (hp : p ∈ e.params) : p.type ∈ e.names.types ∧
    (p.pattern = (Code.Param.destructured (e.pathParams.map pathField) e.names.pathType).pattern ∧
      e.pathParams ≠ [] ∨ p.pattern = "query" ∨ p.pattern = "data") := by
  simp only [params, List.mem_append] at hp
  rcases hp with (hp | hp) | hp
  · split at hp
    · cases hp
    next hne =>
      obtain rfl := List.mem_singleton.1 hp
      exact ⟨by simp [EndpointNames.types, Code.Param.destructured],
        .inl ⟨rfl, by simpa using hne⟩⟩
  · split at hp
    · cases hp
    · obtain rfl := List.mem_singleton.1 hp
      exact ⟨by simp [EndpointNames.types], .inr (.inl rfl)⟩
  · split at hp
    · cases hp
    · obtain rfl := List.mem_singleton.1 hp
      exact ⟨by simp [EndpointNames.types], .inr (.inr rfl)⟩

/-- The pattern of a parameter ends at its colon. -/
theorem exists_readVariables (hp : p ∈ e.params) (rest : List Char) :
    ∃ xs, Pattern.readVariables (p.pattern.toList ++ ':' :: rest) = some (xs, ':' :: rest) := by
  have hcolon : ∀ c ∈ (':' :: rest).head?, isIdentifierChar c = false := by
    simp [isIdentifierChar]
  rcases (mem_params hp).2 with ⟨hpattern, hne⟩ | hpattern | hpattern
  · rw [hpattern]
    exact ⟨_, Pattern.readVariables_destructured hne e.names.pathType _⟩
  · rw [hpattern]
    exact ⟨_, Pattern.readVariables_variable (by decide) (by decide) hcolon⟩
  · rw [hpattern]
    exact ⟨_, Pattern.readVariables_variable (by decide) (by decide) hcolon⟩

/-- The line that opens a client function tells its parameters. -/
theorem readSignature_function (hnames : e.names = .of method url) (style : ErrorStyle) :
    e.names.readSignature (e.function style).signature = some e.params := by
  rw [EndpointNames.readSignature, toList_signature_function, Text.dropPrefix?_append]
  by_cases hnone : e.params = []
  · simp [hnone]
  · have hitem : ∀ p ∈ e.params, ∀ stop ∈ [", ".toList, ") \x7b".toList], ∀ rest,
        readParam e.names.types (p.text.toList ++ (stop ++ rest)) = some (p, stop ++ rest) := by
      intro p hp stop _ rest
      obtain ⟨xs, hread⟩ := exists_readVariables hp (p.type.toList ++ (stop ++ rest))
      have htype := (mem_params hp).1
      refine readParam_text hread htype fun t ht hprefix => ?_
      rw [hnames] at ht htype
      exact EndpointNames.eq_of_prefix ht htype hprefix
    have hclose : ∀ rest : List Char,
        (") \x7b".toList ++ rest).dropPrefix? ", ".toList = none := fun _ => rfl
    have hlength := Text.length_le_intercalate ", ".toList (by decide)
      (e.params.map (·.text.toList))
    rw [List.length_map] at hlength
    generalize htext : ", ".toList.intercalate (e.params.map (·.text.toList)) = text at hlength
    have hsteps : e.params.length ≤ (text ++ ") \x7b".toList).length + 1 := by
      rw [List.length_append]
      omega
    have hitems := Text.readItems_intercalate hclose hitem hnone hsteps []
    rw [htext, List.append_nil, List.map_id'] at hitems
    have hne : text ++ ") \x7b".toList ≠ ") \x7b".toList := by
      intro heq
      rw [heq] at hitems
      exact nomatch hitems
    simp only [Option.bind_eq_bind, Option.bind_some, if_neg hne, hitems]
    rfl

end Endpoint

end SwaggerClient
