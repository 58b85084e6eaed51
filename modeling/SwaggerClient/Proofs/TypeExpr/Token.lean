import SwaggerClient.Proofs.Text.Comment
import SwaggerClient.Proofs.TypeExpr.Reader

/-!
# Reading tokens back

The tokens of a type are read back with whatever text may stand behind them: names,
numbers, quoted literals, comments and the keys of members.
-/

namespace SwaggerClient.TypeText

/-- Whether a text begins with one of some characters, or is empty. -/
def Ahead (cs rest : List Char) : Prop :=
  ∀ c ∈ rest.head?, c ∈ cs

variable {cs ds rest : List Char} {c : Char}

theorem Ahead.nil (cs : List Char) : Ahead cs [] := by
  simp [Ahead]

theorem Ahead.cons (h : c ∈ cs) (rest : List Char) : Ahead cs (c :: rest) := by
  simpa [Ahead] using h

theorem Ahead.mono (h : Ahead cs rest) (hs : cs ⊆ ds) : Ahead ds rest :=
  fun c hc => hs (h c hc)

theorem Ahead.all (h : Ahead cs rest) {p : Char → Prop} (hp : ∀ c ∈ cs, p c) :
    ∀ c ∈ rest.head?, p c :=
  fun c hc => hp c (h c hc)

@[simp] theorem expect_self (c : Char) (rest : List Char) : expect c (c :: rest) = some rest := by
  simp [expect]

theorem expect_of_ahead (h : Ahead cs rest) (hc : c ∉ cs) : expect c rest = none := by
  cases rest with
  | nil => rfl
  | cons d rest =>
    have hd : d ≠ c := by
      rintro rfl
      exact hc (h d rfl)
    simp [expect, hd]

/-! ## Comments and quotes -/

theorem afterComment_cons (h : c = '*' → rest.head? ≠ some '/') :
    afterComment (c :: rest) = afterComment rest := by
  rw [afterComment]
  rintro tail rfl rfl
  exact h rfl rfl

/-- A comment ends where it was meant to, whatever stands in it. -/
theorem afterComment_escapeCommentChars (doc rest : List Char) :
    afterComment (Text.escapeCommentChars doc ++ ' ' :: '*' :: '/' :: rest) = some rest := by
  induction doc using Text.escapeCommentChars.induct with
  | case1 => rfl
  | case2 cs ih => simpa [Text.escapeCommentChars, afterComment] using ih
  | case3 c cs hc ih =>
    rw [Text.escapeCommentChars, List.cons_append, afterComment_cons, ih]
    · intro hstar hslash
      rw [List.head?_append, Text.head?_escapeCommentChars] at hslash
      cases cs with
      | nil => simp at hslash
      | cons d cs =>
        obtain rfl : d = '/' := by simpa using hslash
        exact hc cs hstar rfl
    · exact hc

/-- A quoted literal ends where it was meant to, whatever stands in it. -/
theorem readQuoted_quotedChars (value rest : List Char) :
    readQuoted (Text.quotedChars value ++ '\'' :: rest) = some (value, rest) := by
  induction value with
  | nil => rfl
  | cons c value ih =>
    rw [Text.quotedChars, List.flatMap_cons, List.append_assoc, ← Text.quotedChars]
    unfold Text.quotedChar
    by_cases hb : c = '\\'
    · subst hb
      simp [readQuoted, ih]
    · by_cases hq : c = '\''
      · subst hq
        simp [readQuoted, ih]
      · simp [readQuoted, ih, hb, hq]

/-! ## Words -/

theorem isWordChar_of_isIdentifierChars {word : List Char} (h : isIdentifierChars word) :
    ∀ c ∈ word, isWordChar c := by
  intro c hc
  simp [isWordChar, isIdentifierChar_of_isIdentifierChars h c hc]

theorem isWordChar_of_isNumberSpelling {word : List Char} (h : isNumberSpelling word) :
    ∀ c ∈ word, isWordChar c := by
  intro c hc
  have hnumber := isNumberChar_of_isNumberSpelling h c hc
  simp only [isNumberChar, Bool.or_eq_true, beq_iff_eq] at hnumber
  rcases hnumber with ((((hd | rfl) | rfl) | rfl) | rfl) | rfl
  · simp [isWordChar, isIdentifierChar_of_isDigit hd]
  all_goals decide

/-- No identifier is spelled like a number. -/
theorem isNumberSpelling_of_isIdentifierChars {word : List Char} (h : isIdentifierChars word) :
    isNumberSpelling word = false := by
  obtain ⟨c, rest, rfl, hc⟩ := exists_of_isIdentifierChars h
  by_contra hnumber
  obtain ⟨d, rest', heq, hd⟩ := exists_head_of_isNumberSpelling (by simpa using hnumber)
  obtain ⟨rfl, -⟩ := List.cons.inj heq
  rcases hd with hd | rfl
  · rw [not_isDigit_of_isIdentifierStart hc] at hd
    cases hd
  · exact absurd hc (by decide)

theorem wordType_number {digits : String} (h : isNumberSpelling digits.toList) :
    wordType digits.toList = some (.literals [.number digits]) := by
  simp [wordType, h]

theorem wordType_name {name : String} (h : isIdentifier name) :
    wordType name.toList = some (nameType name) := by
  rw [isIdentifier] at h
  simp [wordType, isNumberSpelling_of_isIdentifierChars h, h]

theorem nameType_primitive (kind : Primitive) : nameType kind.name = .primitive kind := by
  cases kind <;> rfl

theorem nameType_reference {name : String} (h : ∀ kind : Primitive, kind.name ≠ name) :
    nameType name = .reference name := by
  simp [nameType, h]

/-- A word is read up to its end. -/
theorem readWord_append {word : List Char} (hw : ∀ c ∈ word, isWordChar c)
    (hr : ∀ c ∈ rest.head?, isWordChar c = false) :
    readWord (word ++ rest) = (wordType word).map fun type => (type, rest) := by
  rw [readWord, takeWhile_append_stop hw hr, dropWhile_append_stop hw hr]

theorem readPrimary_of_isWordChar {inner : Reader} (h : isWordChar c) :
    readPrimary inner (c :: cs) = readWord (c :: cs) := by
  unfold readPrimary
  split
  all_goals
    first
    | rfl
    | simp_all [isWordChar, isIdentifierChar]

/-! ## Keys -/

theorem toList_quote (s : String) :
    (Text.quote s).toList = '\'' :: Text.quotedChars s.toList ++ ['\''] := by
  rw [Text.quote, String.toList_ofList]

/-- A key begins with a quote or as an identifier does. -/
theorem exists_of_propertyKey (name : String) :
    ∃ c rest, (propertyKey name).toList = c :: rest ∧ (c = '\'' ∨ isIdentifierStart c) := by
  unfold propertyKey
  split
  next h =>
    obtain ⟨c, rest, hname, hc⟩ := exists_of_isIdentifierChars h
    exact ⟨c, rest, hname, .inr hc⟩
  next => exact ⟨'\'', _, toList_quote name, .inl rfl⟩

theorem readKey_propertyKey (name : String) (hr : ∀ c ∈ rest.head?, isIdentifierChar c = false) :
    readKey ((propertyKey name).toList ++ rest) = some (name, rest) := by
  unfold propertyKey
  split
  next h =>
    have hall := isIdentifierChar_of_isIdentifierChars h
    have htake := takeWhile_append_stop hall hr
    have hdrop := dropWhile_append_stop hall hr
    unfold readKey
    split
    next cs heq =>
      obtain ⟨c, tail, hname, hc⟩ := exists_of_isIdentifierChars h
      rw [hname] at heq
      obtain ⟨rfl, -⟩ := List.cons.inj heq
      exact absurd hc (by decide)
    next => simp [htake, hdrop, show isIdentifierChars name.toList from h]
  next =>
    rw [toList_quote, List.append_assoc, List.cons_append, readKey]
    simp [readQuoted_quotedChars]

theorem skipComment_cons (h : c ≠ '/') : skipComment (c :: cs) = some (c :: cs) := by
  unfold skipComment
  split
  next heq => exact absurd (List.cons.inj heq).1 h
  next => rfl

theorem skipComment_keyHead (doc : Option String) (name : String) (optional : Bool)
    (text : List Char) :
    skipComment (keyHead doc (memberKey name optional) ++ text) =
      some ((propertyKey name).toList ++ ((if optional then ['?'] else []) ++ ':' :: text)) := by
  have hkey : (memberKey name optional).toList =
      (propertyKey name).toList ++ if optional then ['?'] else [] := by
    cases optional <;> simp [memberKey]
  cases doc with
  | none =>
    obtain ⟨c, tail, hname, hc⟩ := exists_of_propertyKey name
    have hslash : c ≠ '/' := by
      rintro rfl
      exact absurd hc (by decide)
    have hhead : keyHead none (memberKey name optional) =
        (memberKey name optional).toList ++ [':'] := rfl
    simp [hhead, hkey, hname, skipComment_cons hslash]
  | some doc =>
    have hcomment : ∀ rest, afterComment ('*' :: ' ' ::
        (Text.escapeCommentChars doc.toList ++ ' ' :: '*' :: '/' :: rest)) = some rest := by
      intro rest
      rw [afterComment_cons (by simp), afterComment_cons (by simp), afterComment_escapeCommentChars]
    have hhead : keyHead (some doc) (memberKey name optional) =
        '/' :: '*' :: '*' :: ' ' :: (Text.escapeCommentChars doc.toList ++ [' ', '*', '/', '\n'])
          ++ (memberKey name optional).toList ++ [':'] := rfl
    simp [hhead, hkey, skipComment, hcomment, skipLine]

/-- A member is read back without its documentation. -/
theorem readMember_keyHead {inner : Reader} (doc : Option String) (name : String) (optional : Bool)
    {type : TypeExpr String} {text : List Char} (ht : inner text = some (type, rest)) :
    readMember inner (keyHead doc (memberKey name optional) ++ text) =
      some (⟨name, optional, none, type⟩, rest) := by
  have hkey :
      readKey ((propertyKey name).toList ++ ((if optional then ['?'] else []) ++ ':' :: text)) =
        some (name, (if optional then ['?'] else []) ++ ':' :: text) := by
    refine readKey_propertyKey name ?_
    cases optional <;> simp [isIdentifierChar]
  have hmark : readMark ((if optional then ['?'] else []) ++ ':' :: text) =
      (optional, ':' :: text) := by
    cases optional <;> rfl
  simp [readMember, skipComment_keyHead, hkey, hmark, ht]

end SwaggerClient.TypeText
