import SwaggerClient.Proofs.Name.Identifier
import SwaggerClient.Text.Uppercase

/-!
# Which characters have capitals in identifiers

The upper case of a character is written with characters of identifiers exactly when the
character is one itself, or one of a few letters and ligatures beyond ASCII with capitals in
ASCII.
-/

namespace SwaggerClient.Text

/-- The characters beyond ASCII whose upper case is written in ASCII. -/
def asciiCapitalized : List Char :=
  ['ß', 'ı', 'ſ', 'ﬀ', 'ﬁ', 'ﬂ', 'ﬃ', 'ﬄ', 'ﬅ', 'ﬆ']

/-- No code point beyond ASCII belongs to a character of identifiers. -/
theorem not_isIdentifierChar_ofNat {n : Nat} (h : 128 ≤ n) :
    isIdentifierChar (Char.ofNat n) = false := by
  by_cases hv : n.isValidChar
  · have hn : (Char.ofNat n).toNat = n := by
      rw [Char.ofNat, dif_pos hv]
      rfl
    by_contra hc
    have hlt := toNat_lt_of_isIdentifierChar (Bool.not_eq_false _ ▸ hc)
    omega
  · have hzero : Char.ofNat n = '\x00' := by
      rw [Char.ofNat, dif_neg hv]
      rfl
    rw [hzero]
    decide

/-! ## The tables -/

theorem mem_asciiCapitalized_of_expansion {entry : Nat × List Nat} (he : entry ∈ upperExpansions)
    (h : ∀ m ∈ entry.2, isIdentifierChar (Char.ofNat m)) :
    Char.ofNat entry.1 ∈ asciiCapitalized := by
  have hall : ∀ e ∈ upperExpansions, (∀ m ∈ e.2, isIdentifierChar (Char.ofNat m)) →
      Char.ofNat e.1 ∈ asciiCapitalized := by decide +kernel
  exact hall entry he h

/-- A run with an image in ASCII is a single character. -/
theorem run_spec {first last step image : Nat} (hr : (first, last, step, image) ∈ upperRuns)
    (h : image < 128) : first = last ∧ Char.ofNat first ∈ asciiCapitalized := by
  have hall : ∀ r ∈ upperRuns, r.2.2.2 < 128 →
      r.1 = r.2.1 ∧ Char.ofNat r.1 ∈ asciiCapitalized := by decide +kernel
  exact hall _ hr h

theorem mem_asciiCapitalized_of_upperCodes {n : Nat} (hn : 128 ≤ n)
    (h : ∀ m ∈ upperCodes n, isIdentifierChar (Char.ofNat m)) :
    Char.ofNat n ∈ asciiCapitalized := by
  unfold upperCodes at h
  split at h
  next codes hcodes =>
    obtain ⟨before, after, htable, -⟩ := List.lookup_eq_some_iff.1 hcodes
    have he : (n, codes) ∈ upperExpansions := by simp [htable]
    exact mem_asciiCapitalized_of_expansion he h
  next =>
    split at h
    next first last step image hrun =>
      have hr := List.mem_of_find?_eq_some hrun
      have hbetween : first ≤ n ∧ n ≤ last := by
        have := List.find?_some hrun
        simp only [Bool.and_eq_true, decide_eq_true_eq] at this
        exact this.1
      have hcode := h _ List.mem_cons_self
      by_cases himage : image < 128
      · obtain ⟨hlast, hmem⟩ := run_spec hr himage
        have hfirst : n = first := by omega
        rwa [hfirst]
      · rw [not_isIdentifierChar_ofNat (by omega)] at hcode
        cases hcode
    next =>
      have hcode := h n List.mem_cons_self
      rw [not_isIdentifierChar_ofNat hn] at hcode
      cases hcode

/-! ## Characters -/

theorem isIdentifierChar_toUpper_iff {c : Char} (hc : c.toNat < 128) :
    isIdentifierChar c.toUpper ↔ isIdentifierChar c := by
  have hall : ∀ n < 128,
      (isIdentifierChar (Char.ofNat n).toUpper ↔ isIdentifierChar (Char.ofNat n)) := by
    decide +kernel
  simpa using hall c.toNat hc

theorem le_toNat_of_mem_asciiCapitalized {c : Char} (h : c ∈ asciiCapitalized) :
    128 ≤ c.toNat := by
  have hall : asciiCapitalized.all fun c => 128 ≤ c.toNat := by decide
  exact of_decide_eq_true (List.all_eq_true.1 hall c h)

/-- A character is capitalised within identifiers exactly when it belongs there itself or is
one of the exceptions. -/
theorem forall_mem_upperChars_iff (c : Char) :
    (∀ d ∈ upperChars c, isIdentifierChar d) ↔ isIdentifierChar c ∨ c ∈ asciiCapitalized := by
  by_cases hc : c.val < 128
  · have hlt : c.toNat < 128 := hc
    have hmem : c ∉ asciiCapitalized := fun h => by
      have := le_toNat_of_mem_asciiCapitalized h
      omega
    rw [upperChars, if_pos hc]
    simp [hmem, isIdentifierChar_toUpper_iff hlt]
  · have hle : 128 ≤ c.toNat := Nat.le_of_not_lt hc
    rw [upperChars, if_neg hc]
    constructor
    · intro h
      refine .inr ?_
      have hcodes : ∀ m ∈ upperCodes c.toNat, isIdentifierChar (Char.ofNat m) :=
        fun m hm => h _ (List.mem_map_of_mem hm)
      simpa using mem_asciiCapitalized_of_upperCodes hle hcodes
    · rintro (h | h)
      · have := toNat_lt_of_isIdentifierChar h
        omega
      · have hall : asciiCapitalized.all fun c =>
            ((upperCodes c.toNat).map Char.ofNat).all isIdentifierChar := by decide +kernel
        exact List.all_eq_true.1 (List.all_eq_true.1 hall c h)

end SwaggerClient.Text
