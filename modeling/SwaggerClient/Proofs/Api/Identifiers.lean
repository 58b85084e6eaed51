import SwaggerClient.Proofs.Api.Names
import SwaggerClient.Proofs.Text.Uppercase

/-!
# When the names of an endpoint are identifiers

The names of an endpoint are made of the words of its URL template.  Slash, hyphen, dot and
underscore part words, and braces around a placeholder vanish, but any other character stays.
So the names are identifiers exactly when the words hold characters of identifiers only, but
for the first character of a word, of which only the upper case is written.
-/

namespace SwaggerClient

/-- The words of a template that its identifier is made of. -/
def UrlTemplate.words (url : String) : List (List Char) :=
  Text.splitOn '_' ((scan none (withoutApi url.toList)).flatMap Piece.words)

/-- Whether a word can stand in an identifier once its first character is capitalised. -/
def IdentifierWord : List Char → Prop
  | [] => True
  | c :: cs =>
    (isIdentifierChar c ∨ c ∈ Text.asciiCapitalized) ∧ ∀ d ∈ cs, isIdentifierChar d

theorem forall_mem_capitalizeChars_iff (word : List Char) :
    (∀ c ∈ Text.capitalizeChars word, isIdentifierChar c) ↔ IdentifierWord word := by
  cases word with
  | nil => simp [Text.capitalizeChars, IdentifierWord]
  | cons c cs =>
    simp only [Text.capitalizeChars, IdentifierWord, List.forall_mem_append,
      Text.forall_mem_upperChars_iff]

/-- The identifier of a template holds characters of identifiers only exactly when its words
do. -/
theorem UrlTemplate.forall_mem_identifier_iff (url : String) :
    (∀ c ∈ (identifier url).toList, isIdentifierChar c) ↔
      ∀ word ∈ words url, IdentifierWord word := by
  rw [identifier, String.toList_ofList, Text.pascalChars, ← words, List.forall_mem_flatMap]
  exact forall₂_congr fun word _ => forall_mem_capitalizeChars_iff word

/-- Text between an identifier and an ending makes an identifier when its characters do. -/
theorem isIdentifier_append_iff {name text ending : String} (h : isIdentifier name)
    (he : ∀ c ∈ ending.toList, isIdentifierChar c) :
    isIdentifier (name ++ text ++ ending) ↔ ∀ c ∈ text.toList, isIdentifierChar c := by
  constructor
  · intro hall c hc
    refine isIdentifierChar_of_isIdentifierChars hall c ?_
    simp [hc]
  · intro ht
    exact isIdentifier_append (isIdentifier_append h ht) he

namespace EndpointNames

/-- A name that an endpoint may declare is an identifier exactly when the words of its URL
template can stand in one. -/
theorem isIdentifier_iff_of_mem_declared {method : HttpMethod} {url name : String}
    (h : name ∈ (EndpointNames.of method url).declared) :
    isIdentifier name ↔ ∀ word ∈ UrlTemplate.words url, IdentifierWord word := by
  rw [← UrlTemplate.forall_mem_identifier_iff]
  rcases mem_declared_iff.1 h with rfl | ⟨s, hs, rfl⟩
  · have hverb : isIdentifier method.name := by cases method <;> decide
    have hname : isIdentifier (method.name ++ UrlTemplate.identifier url ++ "") ↔ _ :=
      isIdentifier_append_iff hverb (by simp)
    simpa using hname
  · have hverb : isIdentifier (Text.capitalize method.name) := by cases method <;> decide
    have hending : ∀ s ∈ typeSuffixes, s.toList.all isIdentifierChar := by decide
    exact isIdentifier_append_iff hverb (List.all_eq_true.1 (hending s hs))

/-- The names of an endpoint are identifiers exactly when the words of its URL template can
stand in one, whatever the verb. -/
theorem declared_isIdentifier_iff (method : HttpMethod) (url : String) :
    (∀ name ∈ (EndpointNames.of method url).declared, isIdentifier name) ↔
      ∀ word ∈ UrlTemplate.words url, IdentifierWord word := by
  constructor
  · intro h
    have hfunction : (EndpointNames.of method url).function ∈
        (EndpointNames.of method url).declared := List.mem_cons_self
    exact (isIdentifier_iff_of_mem_declared hfunction).1 (h _ hfunction)
  · intro h name hname
    exact (isIdentifier_iff_of_mem_declared hname).2 h

/-- A colon in a URL template stands in every name of its endpoints. -/
theorem declared_colon_not_isIdentifier :
    (EndpointNames.of .post "/role:batch").declared =
        ["postRole:batch", "PostRole:batchPath", "PostRole:batchQuery", "PostRole:batchBody",
          "PostRole:batchRes"] ∧
      ¬ ∀ name ∈ (EndpointNames.of .post "/role:batch").declared, isIdentifier name := by
  decide +kernel

end EndpointNames

end SwaggerClient
