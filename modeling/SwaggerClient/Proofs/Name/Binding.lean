import SwaggerClient.Proofs.Name.Identifier

/-!
# Bindings

The local variable of a name is an identifier, whatever the name is.  Several names may have
the same one: an underscore keeps a binding apart from a reserved word, but not from a name
that ends in an underscore already, and names that are no identifiers lose what parts their
words.
-/

namespace SwaggerClient

theorem isIdentifierChar_toLower {c : Char} (h : isIdentifierChar c) :
    isIdentifierChar c.toLower :=
  of_isIdentifierChar (p := fun c => isIdentifierChar c.toLower) (by decide) h

theorem not_isDigit_toLower {c : Char} (h : isIdentifierChar c) (hd : c.isDigit = false) :
    c.toLower.isDigit = false :=
  of_isIdentifierChar (p := fun c => c.isDigit = false → c.toLower.isDigit = false) (by decide) h hd

/-- Characters of identifiers make an identifier when the first one is made small, or has an
underscore in front. -/
theorem isIdentifierChars_lowerFirst {cs : List Char} (h : ∀ c ∈ cs, isIdentifierChar c) :
    isIdentifierChars (lowerFirst cs) := by
  cases cs with
  | nil => decide
  | cons c cs =>
    obtain ⟨hc, hcs⟩ := List.forall_mem_cons.1 h
    rw [lowerFirst]
    split
    · simpa [isIdentifierChars, isIdentifierStart] using h
    next hd =>
      have hd : c.isDigit = false := by simpa using hd
      exact isIdentifierChars_cons.2 ⟨isIdentifierStart_of_not_isDigit (isIdentifierChar_toLower hc)
        (not_isDigit_toLower hc hd), hcs⟩

theorem isIdentifierChar_of_mem_bindingWords {c : Char} {cs : List Char}
    (h : c ∈ bindingWords cs) : isIdentifierChar c := by
  obtain ⟨d, -, rfl⟩ := List.mem_map.1 h
  split
  next hd =>
    simp only [Bool.or_eq_true, beq_iff_eq] at hd
    rcases hd with hd | rfl
    · simp [isIdentifierChar, hd]
    · decide
  next => decide

theorem isIdentifier_bindingBase (name : String) : isIdentifier (bindingBase name) := by
  rw [bindingBase]
  split
  · assumption
  · rw [isIdentifier, String.toList_ofList]
    exact isIdentifierChars_lowerFirst fun c hc =>
      isIdentifierChar_of_mem_pascalChars (fun d => isIdentifierChar_of_mem_bindingWords) hc

/-- An underscore stands behind a reserved word. -/
theorem bindingName_eq (name : String) :
    bindingName name =
      if bindingBase name ∈ reservedWords then bindingBase name ++ "_" else bindingBase name := by
  simp [bindingName]

/-- The local variable of a name is an identifier. -/
theorem isIdentifier_bindingName (name : String) : isIdentifier (bindingName name) := by
  have hbase := isIdentifier_bindingBase name
  rw [bindingName_eq]
  split
  · exact isIdentifier_append hbase (by simp [isIdentifierChar])
  · exact hbase

/-! ## Names with the same binding -/

/-- Whether a base is a reserved word, and the other one is that word with an underscore. -/
def Escapes (base other : String) : Prop :=
  base ∈ reservedWords ∧ other = base ++ "_"

/-- Whether two names are bound under the same variable. -/
def SameBinding (p q : String) : Prop :=
  bindingBase p = bindingBase q ∨ Escapes (bindingBase p) (bindingBase q) ∨
    Escapes (bindingBase q) (bindingBase p)

/-- No reserved word is another one with an underscore. -/
theorem not_mem_reservedWords_append {word : String} (h : word ∈ reservedWords) :
    word ++ "_" ∉ reservedWords := by
  have hall : ∀ w ∈ reservedWords, w ++ "_" ∉ reservedWords := by decide +kernel
  exact hall word h

/-- A binding is no reserved word. -/
theorem bindingName_not_mem_reservedWords (name : String) : bindingName name ∉ reservedWords := by
  rw [bindingName_eq]
  split
  next h => exact not_mem_reservedWords_append h
  next h => exact h

/-- An identifier that is not reserved is its own binding, and no other name is. -/
theorem bindingName_eq_self_iff {name : String} :
    bindingName name = name ↔ isIdentifier name ∧ name ∉ reservedWords := by
  constructor
  · intro h
    rw [← h]
    exact ⟨isIdentifier_bindingName name, bindingName_not_mem_reservedWords name⟩
  · rintro ⟨hname, hfree⟩
    have hbase : bindingBase name = name := by rw [bindingBase, if_pos hname]
    rw [bindingName_eq, hbase, if_neg hfree]

/-- The local variable of any name is an identifier and no reserved word.  It is the name itself
for the names that are such, so a binding is bound under itself. -/
theorem bindingName_legal (name : String) :
    isIdentifier (bindingName name) ∧ bindingName name ∉ reservedWords ∧
    (bindingName name = name ↔ isIdentifier name ∧ name ∉ reservedWords) ∧
    bindingName (bindingName name) = bindingName name := by
  have hlegal : isIdentifier (bindingName name) ∧ bindingName name ∉ reservedWords :=
    ⟨isIdentifier_bindingName name, bindingName_not_mem_reservedWords name⟩
  exact ⟨hlegal.1, hlegal.2, bindingName_eq_self_iff, bindingName_eq_self_iff.2 hlegal⟩

/-- Words that are joined into a reserved word, and a name whose binding was escaped already. -/
example : bindingName "new-" = "new_" ∧ bindingName "new_" = "new_" := by decide

theorem bindingName_eq_iff_sameBinding (p q : String) :
    bindingName p = bindingName q ↔ SameBinding p q := by
  simp only [bindingName_eq, SameBinding, Escapes]
  generalize bindingBase p = a
  generalize bindingBase q = b
  by_cases ha : a ∈ reservedWords <;> by_cases hb : b ∈ reservedWords
  · have hne : b ≠ a ++ "_" ∧ a ≠ b ++ "_" :=
      ⟨fun h => not_mem_reservedWords_append ha (h ▸ hb),
        fun h => not_mem_reservedWords_append hb (h ▸ ha)⟩
    simp [ha, hb, hne]
  · have hne : a ≠ b := fun h => hb (h ▸ ha)
    simp [ha, hb, hne, eq_comm]
  · have hne : a ≠ b := fun h => ha (h ▸ hb)
    simp [ha, hb, hne]
  · simp [ha, hb]

/-! ## Names with a given binding -/

/-- The words of a name for a binding that are not empty. -/
def wordsOf (name : String) : List (List Char) :=
  (Text.splitOn '_' (bindingWords name.toList)).filter fun word => !word.isEmpty

/-- Whether a name is a word, or is no identifier and has no other word than this one, perhaps
with a capital. -/
def Spells (word name : String) : Prop :=
  name = word ∨ isIdentifier name = false ∧
    (wordsOf name = [word.toList] ∨ wordsOf name = [Text.capitalizeChars word.toList])

theorem flatMap_capitalizeChars_filter (words : List (List Char)) :
    (words.filter fun word => !word.isEmpty).flatMap Text.capitalizeChars =
      words.flatMap Text.capitalizeChars := by
  induction words with
  | nil => rfl
  | cons word words ih => cases word <;> simp [Text.capitalizeChars, ih]

theorem isAlpha_of_isLower {c : Char} (h : c.isLower) : c.isAlpha :=
  (Bool.or_eq_true _ _).mpr (.inr h)

theorem isIdentifierChar_of_isLower {c : Char} (h : c.isLower) : isIdentifierChar c := by
  simp [isIdentifierChar, Char.isAlphanum, isAlpha_of_isLower h]

theorem capitalizeChars_cons {c : Char} (h : isIdentifierChar c) (cs : List Char) :
    Text.capitalizeChars (c :: cs) = c.toUpper :: cs := by
  have hval : c.val < 128 := toNat_lt_of_isIdentifierChar h
  simp [Text.capitalizeChars, Text.upperChars, hval]

theorem lowerFirst_cons_toUpper {c : Char} (h : c.isLower) (cs : List Char) :
    lowerFirst (c.toUpper :: cs) = c :: cs := by
  have hchar : c.isLower → c.toUpper.isDigit = false ∧ c.toUpper.toLower = c :=
    of_isIdentifierChar
      (p := fun c => c.isLower → c.toUpper.isDigit = false ∧ c.toUpper.toLower = c)
      (by decide) (isIdentifierChar_of_isLower h)
  rw [lowerFirst, (hchar h).1, (hchar h).2]
  rfl

theorem not_isLower_toUpper {c : Char} (h : isIdentifierChar c) : c.toUpper.isLower = false :=
  of_isIdentifierChar (p := fun c => c.toUpper.isLower = false) (by decide) h

/-- A character that becomes a small letter is that letter or its capital. -/
theorem eq_or_eq_of_isLower {c : Char} (h : isIdentifierChar c) (hl : c.toUpper.toLower.isLower) :
    c.toUpper.toLower = c ∨ c.toUpper.toLower.toUpper = c :=
  of_isIdentifierChar
    (p := fun c => c.toUpper.toLower.isLower →
      c.toUpper.toLower = c ∨ c.toUpper.toLower.toUpper = c) (by decide) h hl

/-- Words joined into one of small letters are this one alone, perhaps with a capital: any
other word would put a capital, a digit or a dollar sign into it. -/
theorem eq_of_lowerFirst_eq {words : List (List Char)} {word : List Char}
    (hwords : ∀ u ∈ words, u ≠ [] ∧ ∀ c ∈ u, isIdentifierChar c)
    (hlower : ∀ c ∈ word, c.isLower)
    (h : lowerFirst (words.flatMap Text.capitalizeChars) = word) :
    words = [word] ∨ words = [Text.capitalizeChars word] := by
  rcases words with _ | ⟨u, us⟩
  · subst h
    exact absurd (hlower '_' (by simp [lowerFirst])) (by decide)
  · obtain ⟨⟨hu, hchars⟩, hus⟩ := List.forall_mem_cons.1 hwords
    obtain ⟨a, v, rfl⟩ := List.exists_cons_of_ne_nil hu
    have ha : isIdentifierChar a := hchars a List.mem_cons_self
    rw [List.flatMap_cons, capitalizeChars_cons ha, List.cons_append, lowerFirst] at h
    split at h
    · subst h
      exact absurd (hlower '_' List.mem_cons_self) (by decide)
    · rcases us with _ | ⟨u', us⟩
      · rw [List.flatMap_nil, List.append_nil] at h
        subst h
        have hl := hlower _ List.mem_cons_self
        rw [capitalizeChars_cons (isIdentifierChar_of_isLower hl)]
        rcases eq_or_eq_of_isLower ha hl with heq | heq
        · exact .inl (by rw [heq])
        · exact .inr (by rw [heq])
      · obtain ⟨⟨hu', hchars'⟩, -⟩ := List.forall_mem_cons.1 hus
        obtain ⟨b, v', rfl⟩ := List.exists_cons_of_ne_nil hu'
        have hb : isIdentifierChar b := hchars' b List.mem_cons_self
        have hmem : b.toUpper ∈ word := by
          rw [← h, List.flatMap_cons, capitalizeChars_cons hb]
          simp
        exact absurd (hlower _ hmem) (by simp [not_isLower_toUpper hb])

theorem capitalizeChars_capitalizeChars {word : List Char} (hlower : ∀ c ∈ word, c.isLower) :
    Text.capitalizeChars (Text.capitalizeChars word) = Text.capitalizeChars word := by
  cases word with
  | nil => rfl
  | cons c cs =>
    have hc : isIdentifierChar c := isIdentifierChar_of_isLower (hlower c List.mem_cons_self)
    have hupper : c.toUpper.toUpper = c.toUpper :=
      of_isIdentifierChar (p := fun c => c.toUpper.toUpper = c.toUpper) (by decide) hc
    rw [capitalizeChars_cons hc, capitalizeChars_cons (isIdentifierChar_toUpper hc), hupper]

/-- A word of small letters is itself again without its capital. -/
theorem lowerFirst_capitalizeChars {word : List Char} (hne : word ≠ [])
    (hlower : ∀ c ∈ word, c.isLower) : lowerFirst (Text.capitalizeChars word) = word := by
  obtain ⟨c, cs, rfl⟩ := List.exists_cons_of_ne_nil hne
  have hc : c.isLower := hlower c List.mem_cons_self
  rw [capitalizeChars_cons (isIdentifierChar_of_isLower hc), lowerFirst_cons_toUpper hc]

theorem lowerFirst_eq_iff {words : List (List Char)} {word : List Char}
    (hwords : ∀ u ∈ words, u ≠ [] ∧ ∀ c ∈ u, isIdentifierChar c) (hne : word ≠ [])
    (hlower : ∀ c ∈ word, c.isLower) :
    lowerFirst (words.flatMap Text.capitalizeChars) = word ↔
      words = [word] ∨ words = [Text.capitalizeChars word] := by
  constructor
  · intro h
    exact eq_of_lowerFirst_eq hwords hlower h
  · rintro (rfl | rfl)
    · rw [List.flatMap_singleton, lowerFirst_capitalizeChars hne hlower]
    · rw [List.flatMap_singleton, capitalizeChars_capitalizeChars hlower,
        lowerFirst_capitalizeChars hne hlower]

theorem mem_wordsOf {name : String} {u : List Char} (h : u ∈ wordsOf name) :
    u ≠ [] ∧ ∀ c ∈ u, isIdentifierChar c := by
  obtain ⟨hpiece, hne⟩ := List.mem_filter.1 h
  refine ⟨by simpa using hne, fun c hc => ?_⟩
  exact isIdentifierChar_of_mem_bindingWords (Text.ne_and_mem_of_mem_splitOn hpiece hc).2

/-- A name is bound under a word of small letters that is not reserved exactly when it spells
the word. -/
theorem bindingName_eq_iff_spells {word : String} (hne : word.toList ≠ [])
    (hall : word.toList.all Char.isLower) (hfree : word ∉ reservedWords) (name : String) :
    bindingName name = word ↔ Spells word name := by
  have hlower := List.all_eq_true.1 hall
  have hword : isIdentifier word := by
    obtain ⟨c, cs, hcs⟩ := List.exists_cons_of_ne_nil hne
    rw [hcs] at hlower
    obtain ⟨hc, htail⟩ := List.forall_mem_cons.1 hlower
    rw [isIdentifier, hcs, isIdentifierChars_cons]
    exact ⟨by simp [isIdentifierStart, isAlpha_of_isLower hc],
      fun d hd => isIdentifierChar_of_isLower (htail d hd)⟩
  have hbase : bindingName name = word ↔ bindingBase name = word := by
    rw [bindingName_eq]
    split
    next hr =>
      have hend : '_' ∉ word.toList := fun hmem => absurd (hlower '_' hmem) (by decide)
      constructor
      · rintro rfl
        simp at hend
      · rintro rfl
        exact absurd hr hfree
    next => rfl
  rw [hbase, Spells, bindingBase]
  by_cases hname : isIdentifier name
  · simp [hname]
  · have hne' : name ≠ word := by
      rintro rfl
      exact hname hword
    have hjoin := lowerFirst_eq_iff (fun u => (mem_wordsOf : u ∈ wordsOf name → _)) hne hlower
    rw [wordsOf, flatMap_capitalizeChars_filter] at hjoin
    simp only [hname, Bool.false_eq_true, if_false, hne', false_or, true_and]
    rw [← String.toList_inj, String.toList_ofList]
    exact hjoin

end SwaggerClient
