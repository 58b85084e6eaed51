import SwaggerClient.Name.Identifier
import SwaggerClient.Proofs.Text.Split

/-!
# Names made of any text

The type name of a definition is an identifier, whatever the definition is called.
-/

namespace SwaggerClient

/-! ## Characters -/

theorem toNat_lt_of_isAlpha {c : Char} (h : c.isAlpha) : c.toNat < 128 := by
  have hcase : c.isUpper ∨ c.isLower := (Bool.or_eq_true _ _).mp h
  rcases hcase with hupper | hlower
  · have hle : c.toNat ≤ 'Z'.toNat := (of_decide_eq_true hupper).2
    exact Nat.lt_of_le_of_lt hle (by decide)
  · have hle : c.toNat ≤ 'z'.toNat := of_decide_eq_true ((Bool.and_eq_true _ _).mp hlower).2
    exact Nat.lt_of_le_of_lt hle (by decide)

/-- Identifiers are made of ASCII characters. -/
theorem toNat_lt_of_isIdentifierChar {c : Char} (h : isIdentifierChar c) : c.toNat < 128 := by
  simp only [isIdentifierChar, Char.isAlphanum, Bool.or_eq_true, beq_iff_eq] at h
  rcases h with ((halpha | hdigit) | rfl) | rfl
  · exact toNat_lt_of_isAlpha halpha
  · exact Nat.lt_of_le_of_lt (Char.isDigit_iff_toNat.1 hdigit).2 (by decide)
  · decide
  · decide

/-- What holds of the characters of identifiers among the ASCII characters holds of all
characters of identifiers. -/
theorem of_isIdentifierChar {p : Char → Prop}
    (hp : ∀ n < 128, isIdentifierChar (Char.ofNat n) → p (Char.ofNat n)) {c : Char}
    (h : isIdentifierChar c) : p c := by
  simpa using hp c.toNat (toNat_lt_of_isIdentifierChar h) (by simpa using h)

theorem isIdentifierChar_toUpper {c : Char} (h : isIdentifierChar c) :
    isIdentifierChar c.toUpper :=
  of_isIdentifierChar (p := fun c => isIdentifierChar c.toUpper) (by decide) h

theorem isIdentifierChar_of_isDigit {c : Char} (h : c.isDigit) : isIdentifierChar c := by
  simp [isIdentifierChar, Char.isAlphanum, h]

/-- An identifier starts with any of its characters but a digit. -/
theorem isIdentifierStart_of_not_isDigit {c : Char} (h : isIdentifierChar c)
    (hd : c.isDigit = false) : isIdentifierStart c := by
  simpa [isIdentifierChar, isIdentifierStart, Char.isAlphanum, hd] using h

theorem isIdentifierChar_of_isIdentifierStart {c : Char} (h : isIdentifierStart c) :
    isIdentifierChar c := by
  simp only [isIdentifierStart, isIdentifierChar, Char.isAlphanum, Bool.or_eq_true] at h ⊢
  tauto

theorem not_isDigit_of_isIdentifierStart {c : Char} (h : isIdentifierStart c) : c.isDigit = false :=
  of_isIdentifierChar (p := fun c => isIdentifierStart c → c.isDigit = false) (by decide)
    (isIdentifierChar_of_isIdentifierStart h) h

/-! ## Identifiers as lists of characters -/

theorem isIdentifierChars_cons {c : Char} {cs : List Char} :
    isIdentifierChars (c :: cs) ↔ isIdentifierStart c ∧ ∀ d ∈ cs, isIdentifierChar d := by
  rw [isIdentifierChars, Bool.and_eq_true, List.all_eq_true]

theorem exists_of_isIdentifierChars {cs : List Char} (h : isIdentifierChars cs) :
    ∃ c rest, cs = c :: rest ∧ isIdentifierStart c := by
  cases cs with
  | nil => cases h
  | cons c rest => exact ⟨c, rest, rfl, (isIdentifierChars_cons.1 h).1⟩

theorem isIdentifierChar_of_isIdentifierChars {cs : List Char} (h : isIdentifierChars cs) :
    ∀ c ∈ cs, isIdentifierChar c := by
  cases cs with
  | nil => simp
  | cons c cs =>
    obtain ⟨hc, hcs⟩ := isIdentifierChars_cons.1 h
    exact List.forall_mem_cons.2 ⟨isIdentifierChar_of_isIdentifierStart hc, hcs⟩

/-! ## Words -/

theorem isIdentifierChar_of_mem_capitalizeChars {c : Char} {cs : List Char}
    (h : ∀ d ∈ cs, isIdentifierChar d) (hc : c ∈ Text.capitalizeChars cs) : isIdentifierChar c := by
  cases cs with
  | nil => cases hc
  | cons d cs =>
    have hd := h d List.mem_cons_self
    have hval : d.val < 128 := toNat_lt_of_isIdentifierChar hd
    rw [Text.capitalizeChars, Text.upperChars, if_pos hval] at hc
    rcases List.mem_cons.1 hc with rfl | hc
    · exact isIdentifierChar_toUpper hd
    · exact h c (List.mem_cons_of_mem _ hc)

theorem isIdentifierChar_of_mem_pascalChars {c : Char} {cs : List Char}
    (h : ∀ d ∈ cs, isIdentifierChar d) (hc : c ∈ Text.pascalChars cs) : isIdentifierChar c := by
  obtain ⟨piece, hp, hc⟩ := List.mem_flatMap.1 hc
  have hpiece : ∀ d ∈ piece, isIdentifierChar d := fun d hd =>
    h d (Text.ne_and_mem_of_mem_splitOn hp hd).2
  exact isIdentifierChar_of_mem_capitalizeChars hpiece hc

/-- With no digit in front, characters of identifiers make an identifier. -/
theorem isIdentifierChars_guardDigit {cs : List Char} (h : ∀ c ∈ cs, isIdentifierChar c) :
    isIdentifierChars (guardDigit cs) := by
  cases cs with
  | nil => decide
  | cons c cs =>
    rw [guardDigit]
    split
    · simpa [isIdentifierChars, isIdentifierStart] using h
    next hd =>
      have hc := isIdentifierStart_of_not_isDigit (h c List.mem_cons_self) (by simpa using hd)
      exact isIdentifierChars_cons.2 ⟨hc, fun d hmem => h d (List.mem_cons_of_mem _ hmem)⟩

/-! ## Type names -/

/-- The type name of a definition is an identifier. -/
theorem isIdentifier_typeIdentifier (name : String) : isIdentifier (typeIdentifier name) := by
  unfold typeIdentifier
  split
  · assumption
  · rw [isIdentifier, String.toList_ofList]
    refine isIdentifierChars_guardDigit fun c hc => isIdentifierChar_of_mem_pascalChars ?_ hc
    intro d hd
    obtain ⟨c, -, rfl⟩ := List.mem_map.1 hd
    split
    · assumption
    · decide

/-- An identifier with characters of identifiers behind it is one. -/
theorem isIdentifier_append {name ending : String} (h : isIdentifier name)
    (he : ∀ c ∈ ending.toList, isIdentifierChar c) : isIdentifier (name ++ ending) := by
  rw [isIdentifier] at h ⊢
  obtain ⟨c, cs, hname, hc⟩ := exists_of_isIdentifierChars h
  rw [String.toList_append, hname]
  rw [hname] at h
  refine isIdentifierChars_cons.2 ⟨hc, fun d hd => ?_⟩
  rcases List.mem_append.1 hd with hd | hd
  · exact (isIdentifierChars_cons.1 h).2 d hd
  · exact he d hd

/-- An identifier with digits behind it is one. -/
theorem isIdentifier_append_toString {name : String} (h : isIdentifier name) (n : Nat) :
    isIdentifier (name ++ toString n) := by
  refine isIdentifier_append h fun c hc => isIdentifierChar_of_isDigit ?_
  rw [Nat.toString_eq_ofList_toDigits, String.toList_ofList] at hc
  exact Nat.isDigit_of_mem_toDigits (by decide) (by decide) hc

end SwaggerClient
