import SwaggerClient.Compilation
import SwaggerClient.Proofs.Api.Lowered
import SwaggerClient.Proofs.Client.Signature

/-!
# The scope of a client function

A client function binds a variable for every placeholder, and `query` and `data` beside them
when the operation has query parameters and a body, as the line that opens it tells; its body uses
`axios` and `res`.  Nothing keeps these names apart, so the scope is sound exactly when the names of
the placeholders do.
-/

namespace SwaggerClient

namespace Endpoint

variable (e : Endpoint) (style : ErrorStyle)

/-- The variables of the placeholders, of the query parameters and of the body. -/
def localNames : List String :=
  e.pathParams.map bindingName ++ (if e.query.isEmpty then [] else ["query"])
    ++ (if e.body.isNone then [] else ["data"])

/-- The variables that the client function binds, as the line that opens it tells, if its patterns
can be read. -/
def boundNames : Option (List String) := do
  let params ← e.names.readSignature (e.function style).signature
  let names ← params.mapM fun p => Pattern.read p.pattern
  return names.flatten

/-- The parameters of the client function bind these variables and no other one. -/
theorem boundNames_eq {e : Endpoint} {method : HttpMethod} {url : String}
    (hnames : e.names = .of method url) (style : ErrorStyle) :
    e.boundNames style = some e.localNames := by
  have hquery : Pattern.read "query" = some ["query"] := by decide +kernel
  have hdata : Pattern.read "data" = some ["data"] := by decide +kernel
  have hpath : ((if e.pathParams.isEmpty then [] else
      [Code.Param.destructured (e.pathParams.map pathField) e.names.pathType]).mapM
        fun p => Pattern.read p.pattern) =
      some (if e.pathParams.isEmpty then [] else [e.pathParams.map bindingName]) := by
    by_cases h : e.pathParams = []
    · simp [h]
    · simp [h, Pattern.read_destructured h]
  rw [boundNames, readSignature_function hnames]
  simp only [Option.bind_eq_bind, Option.bind_some, params, List.mapM_append, hpath]
  by_cases hp : e.pathParams = [] <;> by_cases hq : e.query = [] <;> cases hb : e.body <;>
    simp [localNames, hp, hq, hb, hquery, hdata]

/-- Whether the client function has a sound scope: its parameters bind different variables, and
no variable of a placeholder has a name that the body of the function uses. -/
def SoundScope : Prop :=
  ∃ names, e.boundNames style = some names ∧ names.Nodup ∧
    ∀ p ∈ e.pathParams, bindingName p ≠ "axios" ∧ bindingName p ≠ "res"

/-- The variables are different exactly when no two placeholders have the same binding, and none
has the name of another parameter. -/
theorem nodup_localNames_iff :
    e.localNames.Nodup ↔
      e.pathParams.Pairwise (fun p q => bindingName p ≠ bindingName q) ∧
      (e.query ≠ [] → ∀ p ∈ e.pathParams, bindingName p ≠ "query") ∧
      (e.body.isSome → ∀ p ∈ e.pathParams, bindingName p ≠ "data") := by
  have hpath : (e.pathParams.map bindingName).Nodup ↔
      e.pathParams.Pairwise fun p q => bindingName p ≠ bindingName q := List.pairwise_map
  have hboth : (∀ p ∈ e.pathParams, bindingName p ≠ "query" ∧ bindingName p ≠ "data") ↔
      (∀ p ∈ e.pathParams, bindingName p ≠ "query") ∧
        ∀ p ∈ e.pathParams, bindingName p ≠ "data" := forall₂_and
  rw [localNames]
  by_cases hq : e.query = [] <;> cases hb : e.body <;>
    simp [hq, hpath, List.nodup_append, hboth]

end Endpoint

/-- What keeps the variables of a client function apart: no two placeholders have the same
binding, and none spells a name that the function uses otherwise. -/
structure SeparateNames (names : List String) (hasQuery hasBody : Prop) : Prop where
  distinct : names.Pairwise fun p q => ¬ SameBinding p q
  axios : ∀ p ∈ names, ¬ Spells "axios" p
  res : ∀ p ∈ names, ¬ Spells "res" p
  query : hasQuery → ∀ p ∈ names, ¬ Spells "query" p
  data : hasBody → ∀ p ∈ names, ¬ Spells "data" p

/-- A name is bound as one of those that the function uses exactly when it spells it. -/
theorem bindingName_eq_iff_of_used {word : String} (h : word ∈ ["axios", "res", "query", "data"])
    (name : String) : bindingName name = word ↔ Spells word name := by
  have hall : ∀ word ∈ ["axios", "res", "query", "data"],
      word.toList ≠ [] ∧ word.toList.all Char.isLower ∧ word ∉ reservedWords := by
    decide +kernel
  obtain ⟨hne, hlower, hfree⟩ := hall word h
  exact bindingName_eq_iff_spells hne hlower hfree name

theorem Endpoint.soundScope_iff_separateNames {e : Endpoint} {method : HttpMethod} {url : String}
    (hnames : e.names = .of method url) (style : ErrorStyle) :
    e.SoundScope style ↔ SeparateNames e.pathParams (e.query ≠ []) e.body.isSome := by
  have haxios : ∀ p, bindingName p = "axios" ↔ Spells "axios" p :=
    bindingName_eq_iff_of_used (by decide)
  have hres : ∀ p, bindingName p = "res" ↔ Spells "res" p :=
    bindingName_eq_iff_of_used (by decide)
  have hquery : ∀ p, bindingName p = "query" ↔ Spells "query" p :=
    bindingName_eq_iff_of_used (by decide)
  have hdata : ∀ p, bindingName p = "data" ↔ Spells "data" p :=
    bindingName_eq_iff_of_used (by decide)
  simp only [SoundScope, boundNames_eq hnames style, Option.some.injEq, exists_eq_left',
    nodup_localNames_iff, ne_eq, bindingName_eq_iff_sameBinding, haxios, hres, hquery, hdata]
  constructor
  · rintro ⟨⟨hdistinct, hq, hd⟩, hused⟩
    exact ⟨hdistinct, fun p hp => (hused p hp).1, fun p hp => (hused p hp).2, hq, hd⟩
  · intro h
    exact ⟨⟨h.distinct, h.query, h.data⟩, fun p hp => ⟨h.axios p hp, h.res p hp⟩⟩

namespace Document

/-- The client function of every operation has a sound scope exactly when the names of the
placeholders in its URL template keep its variables apart. -/
theorem soundScope_iff (d : Document) (style : ErrorStyle) :
    List.Forall₂ (fun (route : Route) (e : Endpoint) =>
        e.SoundScope style ↔
          SeparateNames (UrlTemplate.placeholders route.url) (route.operation.queryParams ≠ [])
            route.operation.bodySchema.isSome)
      d.routes d.api.endpoints := by
  rw [api_endpoints_eq_map, List.forall₂_map_right_iff, List.forall₂_same]
  intro route _
  have hnames : (d.endpointOf route).names = .of route.method route.url := rfl
  simpa [endpointOf, Route.expandedEndpoint, Route.endpoint, Definitions.givenType] using
    Endpoint.soundScope_iff_separateNames hnames style

/-- A document with one operation, whose placeholder has the name of the response. -/
def fileDocument : Document where
  paths := [("/file/\x7bres\x7d", [(.get, {})])]
  definitions := []

/-- A placeholder may take the name of the response though no lint reports anything. -/
theorem fileDocument_not_soundScope :
    (∀ lint ∈ defaultLints, lint.check fileDocument = []) ∧
      fileDocument.api.endpoints.map (·.localNames) = [["res"]] ∧
      ∀ e ∈ fileDocument.api.endpoints, ¬ e.SoundScope .sentinel := by
  have hlint : ∀ lint ∈ defaultLints, lint.check fileDocument = [] := by
    simp only [defaultLints, List.forall_mem_cons]
    decide +kernel
  have hparams : fileDocument.api.endpoints.map (·.pathParams) = [["res"]] := by decide +kernel
  refine ⟨hlint, by decide +kernel, ?_⟩
  rintro e he ⟨names, -, -, hused⟩
  have hmem : e.pathParams ∈ [["res"]] := hparams ▸ List.mem_map_of_mem he
  have hres : "res" ∈ e.pathParams := by simp [List.mem_singleton.1 hmem]
  exact (hused "res" hres).2 (by decide +kernel)

end Document

end SwaggerClient
