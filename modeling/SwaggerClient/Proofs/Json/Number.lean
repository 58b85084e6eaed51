import SwaggerClient.Json.Number
import SwaggerClient.Proofs.Decimal.Shortest
import SwaggerClient.Proofs.Text.Split

/-!
# Spellings of numbers

A number in JSON is an integer without needless zeros in front, perhaps with a sign, a
fraction and an exponent.  The text of every number is spelled so.
-/

namespace SwaggerClient

/-! ## The spelling -/

/-- Whether a text is made of digits, at least one. -/
def isDigits (cs : List Char) : Bool :=
  !cs.isEmpty && cs.all Char.isDigit

theorem isDigits_iff {cs : List Char} : isDigits cs ↔ cs ≠ [] ∧ ∀ c ∈ cs, c.isDigit := by
  simp [isDigits]

/-- Whether digits spell an integer: only zero begins with a zero. -/
def isWhole : List Char → Bool
  | [] => false
  | ['0'] => true
  | c :: _ => c != '0'

/-- Whether a text is an exponent with its letter, or nothing. -/
def isExponent : List Char → Bool
  | [] => true
  | 'e' :: '+' :: cs | 'e' :: '-' :: cs | 'E' :: '+' :: cs | 'E' :: '-' :: cs => isDigits cs
  | 'e' :: cs | 'E' :: cs => isDigits cs
  | _ => false

/-- Whether a text is a fraction with its point, or nothing, and then an exponent. -/
def isFraction : List Char → Bool
  | '.' :: cs => isDigits (cs.takeWhile Char.isDigit) && isExponent (cs.dropWhile Char.isDigit)
  | cs => isExponent cs

/-- Whether a text spells a number without a sign. -/
def isUnsignedSpelling (cs : List Char) : Bool :=
  isWhole (cs.takeWhile Char.isDigit) && isFraction (cs.dropWhile Char.isDigit)

/-- Whether a text spells a number as JSON has it. -/
def isNumberSpelling : List Char → Bool
  | '-' :: cs => isUnsignedSpelling cs
  | cs => isUnsignedSpelling cs

/-- The characters of numbers. -/
def isNumberChar (c : Char) : Bool :=
  c.isDigit || c == '.' || c == '+' || c == '-' || c == 'e' || c == 'E'

theorem isNumberChar_of_isDigits {cs : List Char} (h : isDigits cs) : ∀ c ∈ cs, isNumberChar c := by
  intro c hc
  simp [isNumberChar, (isDigits_iff.1 h).2 c hc]

theorem isNumberChar_of_isExponent {cs : List Char} (h : isExponent cs) :
    ∀ c ∈ cs, isNumberChar c := by
  unfold isExponent at h
  split at h
  · simp
  all_goals
    first
    | cases h
    | simpa [List.forall_mem_cons, isNumberChar] using isNumberChar_of_isDigits h

theorem isNumberChar_of_takeWhile {cs : List Char}
    (h : ∀ c ∈ cs.dropWhile Char.isDigit, isNumberChar c) : ∀ c ∈ cs, isNumberChar c := by
  intro c hc
  rw [← List.takeWhile_append_dropWhile (p := Char.isDigit) (l := cs), List.mem_append] at hc
  rcases hc with hc | hc
  · simp [isNumberChar, List.mem_takeWhile_imp hc]
  · exact h c hc

theorem isNumberChar_of_isFraction {cs : List Char} (h : isFraction cs) :
    ∀ c ∈ cs, isNumberChar c := by
  unfold isFraction at h
  split at h
  next cs =>
    rw [Bool.and_eq_true] at h
    exact List.forall_mem_cons.2
      ⟨by decide, isNumberChar_of_takeWhile (isNumberChar_of_isExponent h.2)⟩
  next => exact isNumberChar_of_isExponent h

/-- A spelling has characters of numbers only. -/
theorem isNumberChar_of_isNumberSpelling {cs : List Char} (h : isNumberSpelling cs) :
    ∀ c ∈ cs, isNumberChar c := by
  have hunsigned : ∀ {cs}, isUnsignedSpelling cs → ∀ c ∈ cs, isNumberChar c := by
    intro cs h
    rw [isUnsignedSpelling, Bool.and_eq_true] at h
    exact isNumberChar_of_takeWhile (isNumberChar_of_isFraction h.2)
  unfold isNumberSpelling at h
  split at h
  · exact List.forall_mem_cons.2 ⟨by decide, hunsigned h⟩
  · exact hunsigned h

/-- A spelling begins with a digit or the sign. -/
theorem exists_head_of_isNumberSpelling {cs : List Char} (h : isNumberSpelling cs) :
    ∃ c rest, cs = c :: rest ∧ (c.isDigit ∨ c = '-') := by
  have hunsigned : ∀ {cs}, isUnsignedSpelling cs → ∃ c rest, cs = c :: rest ∧ c.isDigit := by
    intro cs h
    cases cs with
    | nil => simp [isUnsignedSpelling, isWhole] at h
    | cons c rest =>
      refine ⟨c, rest, rfl, ?_⟩
      by_contra hc
      simp [isUnsignedSpelling, hc, isWhole] at h
  unfold isNumberSpelling at h
  split at h
  next rest => exact ⟨'-', rest, rfl, .inr rfl⟩
  next =>
    obtain ⟨c, rest, rfl, hc⟩ := hunsigned h
    exact ⟨c, rest, rfl, .inl hc⟩

/-! ## Texts of numbers -/

theorem isDigit_of_mem_toDigits {n : Nat} : ∀ c ∈ Nat.toDigits 10 n, c.isDigit := fun _ hc =>
  Nat.isDigit_of_mem_toDigits (by decide) (by decide) hc

theorem isDigits_toDigits (n : Nat) : isDigits (Nat.toDigits 10 n) :=
  isDigits_iff.2 ⟨Nat.toDigits_ne_nil, isDigit_of_mem_toDigits⟩

theorem head?_toDigits {n : Nat} (h : 0 < n) : (Nat.toDigits 10 n).head? ≠ some '0' := by
  induction n using Nat.strongRecOn with
  | ind n ih =>
    by_cases hn : n < 10
    · rw [Nat.toDigits_of_lt_base hn]
      have hdigit : ∀ m < 10, 0 < m → some m.digitChar ≠ some '0' := by decide
      exact hdigit n hn h
    · rw [Nat.toDigits_of_base_le (by decide) (by omega), List.head?_append]
      have hdiv := ih (n / 10) (by omega) (by omega)
      cases hd : (Nat.toDigits 10 (n / 10)).head? with
      | none => exact absurd (List.head?_eq_none_iff.1 hd) Nat.toDigits_ne_nil
      | some c => simpa [hd] using hdiv

theorem isWhole_of_head {cs : List Char} (hne : cs ≠ []) (hhead : cs.head? ≠ some '0') :
    isWhole cs := by
  unfold isWhole
  split
  · exact absurd rfl hne
  · rfl
  next c cs _ => simpa using hhead

theorem isWhole_toDigits (n : Nat) : isWhole (Nat.toDigits 10 n) := by
  rcases Nat.eq_zero_or_pos n with rfl | hn
  · decide
  · exact isWhole_of_head Nat.toDigits_ne_nil (head?_toDigits hn)

/-- An integer in front of a fraction and an exponent. -/
theorem isUnsignedSpelling_append {whole rest : List Char} (hd : ∀ c ∈ whole, c.isDigit)
    (hw : isWhole whole) (hr : ∀ c ∈ rest.head?, c.isDigit = false) (hf : isFraction rest) :
    isUnsignedSpelling (whole ++ rest) := by
  rw [isUnsignedSpelling, takeWhile_append_stop hd hr, dropWhile_append_stop hd hr, hw, hf]
  rfl

/-- A fraction in front of an exponent. -/
theorem isFraction_point {digits rest : List Char} (hd : isDigits digits)
    (hr : ∀ c ∈ rest.head?, c.isDigit = false) (he : isExponent rest) :
    isFraction ('.' :: (digits ++ rest)) := by
  have hall := (isDigits_iff.1 hd).2
  rw [isFraction, takeWhile_append_stop hall hr, dropWhile_append_stop hall hr, hd, he]
  rfl

namespace Number

/-- Digits cut by a point. -/
theorem isUnsignedSpelling_pointed {digits : List Char} (hd : isDigits digits) {point : Nat}
    (hpoint : point < digits.length) (hw : isWhole (digits.take point)) {rest : List Char}
    (hr : ∀ c ∈ rest.head?, c.isDigit = false) (he : isExponent rest) :
    isUnsignedSpelling (pointed digits point ++ rest) := by
  have hall := (isDigits_iff.1 hd).2
  have hdrop : isDigits (digits.drop point) := by
    refine isDigits_iff.2 ⟨?_, fun c hc => hall c (List.mem_of_mem_drop hc)⟩
    rw [ne_eq, List.drop_eq_nil_iff]
    omega
  rw [pointed, List.append_assoc, List.cons_append]
  exact isUnsignedSpelling_append (fun c hc => hall c (List.mem_of_mem_take hc)) hw
    (by simp) (isFraction_point hdrop hr he)

theorem isExponent_sign {c : Char} (hc : c = '-' ∨ c = '+') (n : Nat) :
    isExponent ('e' :: c :: Nat.toDigits 10 n) := by
  rcases hc with rfl | rfl <;> exact isDigits_toDigits n

theorem isWhole_take {digits : List Char} (hne : digits ≠ []) (hhead : digits.head? ≠ some '0')
    {point : Nat} (hpoint : 0 < point) : isWhole (digits.take point) := by
  obtain ⟨first, rest, rfl⟩ := List.exists_cons_of_ne_nil hne
  obtain ⟨point, rfl⟩ : ∃ n, point = n + 1 := Nat.exists_eq_add_one.2 hpoint
  exact isWhole_of_head (by simp) (by simpa using hhead)

/-- Digits cut behind the first one, in front of an exponent. -/
theorem isUnsignedSpelling_scientific {digits : List Char} (hd : isDigits digits)
    (hw : isWhole digits) {sign : Char} (hsign : sign = '-' ∨ sign = '+') (n : Nat) :
    isUnsignedSpelling ((if digits.length = 1 then digits else pointed digits 1)
      ++ 'e' :: sign :: Nat.toDigits 10 n) := by
  have hexp := isExponent_sign hsign n
  have hall := (isDigits_iff.1 hd).2
  obtain ⟨first, rest, rfl⟩ := List.exists_cons_of_ne_nil (isDigits_iff.1 hd).1
  split
  next => exact isUnsignedSpelling_append hall hw (by simp) hexp
  next hmany =>
    rw [List.length_cons] at hmany
    refine isUnsignedSpelling_pointed hd (by rw [List.length_cons]; omega) ?_ (by simp) hexp
    by_cases hzero : first = '0'
    · rw [hzero]
      rfl
    · exact isWhole_of_head (by simp) (by simpa using hzero)

/-- Digits with zeros behind them. -/
theorem isUnsignedSpelling_padded {digits : List Char} (hd : isDigits digits)
    (hhead : digits.head? ≠ some '0') (zeros : Nat) :
    isUnsignedSpelling (digits ++ List.replicate zeros '0' ++ ['.', '0']) := by
  obtain ⟨hne, hall⟩ := isDigits_iff.1 hd
  refine isUnsignedSpelling_append (fun c hc => ?_) ?_ (by simp) (by decide)
  · rcases List.mem_append.1 hc with hc | hc
    · exact hall c hc
    · rw [List.eq_of_mem_replicate hc]
      decide
  · obtain ⟨first, rest, rfl⟩ := List.exists_cons_of_ne_nil hne
    exact isWhole_of_head (by simp) (by simpa using hhead)

/-- Digits with zeros between the point and them. -/
theorem isUnsignedSpelling_small {digits : List Char} (hd : isDigits digits) (zeros : Nat) :
    isUnsignedSpelling ('0' :: '.' :: List.replicate zeros '0' ++ digits) := by
  obtain ⟨hne, hall⟩ := isDigits_iff.1 hd
  have hzeros : isDigits (List.replicate zeros '0' ++ digits) := by
    refine isDigits_iff.2 ⟨by simp [hne], fun c hc => ?_⟩
    rcases List.mem_append.1 hc with hc | hc
    · rw [List.eq_of_mem_replicate hc]
      decide
    · exact hall c hc
  have hfraction := isFraction_point hzeros
    (by simp : ∀ c ∈ ([] : List Char).head?, c.isDigit = false) rfl
  rw [List.append_nil] at hfraction
  have hspelling := isUnsignedSpelling_append
    (List.forall_mem_singleton.2 (by decide : '0'.isDigit)) rfl (by simp) hfraction
  simpa using hspelling

/-- The text of a double greater than zero is spelled as a number. -/
theorem isUnsignedSpelling_magnitudeText {x : Binary64} (h : x.significand ≠ 0) :
    isUnsignedSpelling (magnitudeText x) := by
  have hdigits := isDigits_toDigits (Decimal.shortest x).digits
  have hwhole := isWhole_toDigits (Decimal.shortest x).digits
  have hlength : 0 < (Nat.toDigits 10 (Decimal.shortest x).digits).length := Nat.length_toDigits_pos
  have hpos := Decimal.shortest_digits_pos h
  unfold magnitudeText
  generalize hd : Decimal.shortest x = d at *
  simp only
  generalize hds : Nat.toDigits 10 d.digits = digits at *
  have hne := List.ne_nil_of_length_pos hlength
  -- Only the decimal at the end of the search begins with a zero, and it is far from one.
  have hhead : d.exponent ≠ -331 ∨ digits.length ≠ 1 → digits.head? ≠ some '0' := by
    intro hother
    rcases hpos with hpos | rfl
    · exact hds ▸ head?_toDigits hpos
    · simp [← hds] at hother
  split
  next hfar =>
    refine isUnsignedSpelling_scientific hdigits hwhole ?_ _
    split
    · exact .inl rfl
    · exact .inr rfl
  next hnear =>
    split
    next hexponent => exact isUnsignedSpelling_padded hdigits (hhead (.inl (by omega))) _
    next hexponent =>
      split
      next hfirst =>
        rw [← List.append_nil (pointed _ _)]
        exact isUnsignedSpelling_pointed hdigits (by omega)
          (isWhole_take hne (hhead (by omega)) (by omega)) (by simp) rfl
      next hfirst => exact isUnsignedSpelling_small hdigits _

/-- The text of a number is spelled as JSON has it. -/
theorem isNumberSpelling_text (n : Number) : isNumberSpelling n.text.toList := by
  have hunsigned : ∀ {cs}, isUnsignedSpelling cs →
      isNumberSpelling cs ∧ isNumberSpelling ('-' :: cs) := by
    intro cs h
    refine ⟨?_, h⟩
    unfold isNumberSpelling
    split
    · simp [isUnsignedSpelling, isWhole] at h
    · exact h
  have hdigits : ∀ n, isUnsignedSpelling (Nat.toDigits 10 n) := by
    intro n
    simpa using isUnsignedSpelling_append isDigit_of_mem_toDigits (isWhole_toDigits n)
      (by simp : ∀ c ∈ ([] : List Char).head?, c.isDigit = false) (by decide)
  cases n with
  | integer n =>
    cases n with
    | ofNat n =>
      have htext : (text (.integer (.ofNat n))).toList = Nat.toDigits 10 n := by
        simp [text, Int.repr]
      rw [htext]
      exact (hunsigned (hdigits n)).1
    | negSucc n =>
      have htext : (text (.integer (.negSucc n))).toList = '-' :: Nat.toDigits 10 (n + 1) := by
        simp [text, Int.repr]
      rw [htext]
      exact (hunsigned (hdigits (n + 1))).2
  | double negative x =>
    have hmagnitude : isUnsignedSpelling
        (if x.significand = 0 then ['0', '.', '0'] else magnitudeText x) := by
      split
      · decide
      next h => exact isUnsignedSpelling_magnitudeText h
    cases negative
    · simpa [text] using (hunsigned hmagnitude).1
    · simpa [text] using (hunsigned hmagnitude).2

end Number

end SwaggerClient
