import Mathlib.Data.List.Basic
import SwaggerClient.Json.Reader
import SwaggerClient.Proofs.Name.Identifier

/-!
# Template literals

How a template literal is read: a backtick ends it, a backslash begins an escape, a variable
between braces behind a dollar sign stands for its value, a carriage return stands for a line
feed, together with a line feed behind it if there is one, and any other character stands for
itself.  What is read is a sequence of code units, so that half a character is a value too.
-/

namespace SwaggerClient.TemplateLiteral

/-! ## Code units -/

/-- The UTF-16 code units of a code point. -/
def codeUnits (point : Nat) : List Nat :=
  if point < 0x10000 then [point]
  else [0xD800 + (point - 0x10000) / 0x400, 0xDC00 + (point - 0x10000) % 0x400]

/-- The code units of a text. -/
def units (cs : List Char) : List Nat :=
  cs.flatMap fun c => codeUnits c.toNat

/-! ## Reading -/

/-- The number that hexadecimal digits stand for. -/
def hexNumber? (digits : List Char) : Option Nat :=
  (digits.mapM hexValue?).map fun values => values.foldl (fun n digit => n * 16 + digit) 0

/-- The letters that stand for a control character behind a backslash. -/
def controlLetters : List (Char × Nat) :=
  [('b', 8), ('t', 9), ('n', 10), ('v', 11), ('f', 12), ('r', 13)]

/-- A character that ends a line. -/
def isLineEnd (c : Char) : Bool :=
  c == '\n' || c == '\r' || c == '\u2028' || c == '\u2029'

/-- A code unit by a number of digits behind a letter, and how many characters these are. -/
def hexEscape (count : Nat) (cs : List Char) : Option (List Nat × Nat) :=
  if cs.length < count then none
  else (hexNumber? (cs.take count)).map fun n => ([n], count + 1)

/-- A code point by the digits before a closing brace, and how many characters these are with
the letter and the braces. -/
def braceEscape (cs : List Char) : Option (List Nat × Nat) :=
  let digits := cs.takeWhile (· != '}')
  if digits.isEmpty || digits.length == cs.length then none
  else ((hexNumber? digits).filter (· ≤ 0x10FFFF)).map fun n => (codeUnits n, digits.length + 3)

/-- What an escape stands for, and how many characters behind the backslash belong to it.  A
line end stands for nothing, and a digit for nothing that may be written. -/
def escape : List Char → Option (List Nat × Nat)
  | [] => none
  | 'x' :: cs => hexEscape 2 cs
  | 'u' :: '{' :: cs => braceEscape cs
  | 'u' :: cs => hexEscape 4 cs
  | '0' :: cs => if cs.head?.any Char.isDigit then none else some ([0], 1)
  | '\r' :: '\n' :: _ => some ([], 2)
  | c :: _ =>
    if c.isDigit then none
    else if isLineEnd c then some ([], 1)
    else some (((controlLetters.lookup c).map fun n => [n]).getD (codeUnits c.toNat), 1)

/-- The value of a variable before a closing brace, and how many characters belong to it with
the braces. -/
def substitution (env : String → Option (List Nat)) (cs : List Char) : Option (List Nat × Nat) :=
  let name := cs.takeWhile (· != '}')
  if !isIdentifierChars name || name.length == cs.length then none
  else (env (String.ofList name)).map fun us => (us, name.length + 2)

/-- What the first part of a template literal stands for, and how many characters behind the
first belong to it. -/
def part (env : String → Option (List Nat)) : List Char → Option (List Nat × Nat)
  | [] => none
  | '\\' :: cs => escape cs
  | '$' :: '{' :: cs => substitution env cs
  | '\r' :: '\n' :: _ => some ([10], 1)
  | '\r' :: _ => some ([10], 0)
  | c :: _ => some (codeUnits c.toNat, 0)

/-- The value of a template literal behind its opening backtick, and the text behind its
closing one.  The number says how many characters belong to the part that has been read. -/
def value (env : String → Option (List Nat)) : Nat → List Char → Option (List Nat × List Char)
  | _, [] => none
  | skip + 1, _ :: cs => value env skip cs
  | 0, c :: cs =>
    if c = '\x60' then some ([], cs)
    else
      match part env (c :: cs) with
      | none => none
      | some (us, skip) => (value env skip cs).map fun (vs, rest) => (us ++ vs, rest)

variable {env : String → Option (List Nat)} {c : Char} {cs name : List Char} {us : List Nat}

@[simp] theorem units_nil : units [] = [] := rfl

@[simp] theorem units_cons (c : Char) (cs : List Char) :
    units (c :: cs) = codeUnits c.toNat ++ units cs := rfl

@[simp] theorem units_append (cs ds : List Char) : units (cs ++ ds) = units cs ++ units ds := by
  simp [units]

/-- What belongs to the part that has been read is passed over. -/
theorem value_eq_drop (n : Nat) (cs : List Char) : value env n cs = value env 0 (cs.drop n) := by
  induction cs generalizing n with
  | nil => simp [value]
  | cons c cs ih =>
    cases n with
    | zero => rfl
    | succ n => simp [value, ih n]

@[simp] theorem value_close (cs : List Char) : value env 0 ('\x60' :: cs) = some ([], cs) := rfl

theorem value_cons (hc : c ≠ '\x60') {n : Nat} (hpart : part env (c :: cs) = some (us, n)) :
    value env 0 (c :: cs) =
      (value env 0 (cs.drop n)).map fun (vs, rest) => (us ++ vs, rest) := by
  simp [value, hc, hpart, value_eq_drop n]

theorem value_of_none (hc : c ≠ '\x60') (hpart : part env (c :: cs) = none) :
    value env 0 (c :: cs) = none := by
  simp [value, hc, hpart]

/-- A character that is no backslash and no carriage return stands for itself, a dollar sign
only when no brace is behind it. -/
theorem part_char (hs : c ≠ '\\') (hr : c ≠ '\r') (hd : c = '$' → cs.head? ≠ some '{') :
    part env (c :: cs) = some (codeUnits c.toNat, 0) := by
  rw [part.eq_def]
  split <;> simp_all

theorem value_char (hc : c ≠ '\x60') (hs : c ≠ '\\') (hr : c ≠ '\r')
    (hd : c = '$' → cs.head? ≠ some '{') :
    value env 0 (c :: cs) =
      (value env 0 cs).map fun (vs, rest) => (codeUnits c.toNat ++ vs, rest) :=
  value_cons hc (part_char hs hr hd)

/-- No brace stands in an identifier. -/
theorem takeWhile_identifier (hname : isIdentifierChars name) (cs : List Char) :
    (name ++ '}' :: cs).takeWhile (· != '}') = name := by
  have hall : ∀ c ∈ name, (c != '}') = true := by
    intro c hc
    have := isIdentifierChar_of_isIdentifierChars hname c hc
    rw [bne_iff_ne]
    rintro rfl
    exact absurd this (by decide)
  rw [List.takeWhile_append_of_pos hall]
  simp

/-- A variable between braces stands for its value. -/
theorem value_substitution (hname : isIdentifierChars name)
    (henv : env (String.ofList name) = some us) (cs : List Char) :
    value env 0 (['$', '{'] ++ name ++ '}' :: cs) =
      (value env 0 cs).map fun (vs, rest) => (us ++ vs, rest) := by
  have hpart : part env ('$' :: '{' :: (name ++ '}' :: cs)) = some (us, name.length + 2) := by
    simp [part, substitution, takeWhile_identifier hname, hname, henv]
  have hdrop : ('{' :: (name ++ '}' :: cs)).drop (name.length + 2) = cs := by
    simp [List.drop_append, List.drop_eq_nil_of_le]
  have hvalue := value_cons (by decide) hpart
  rw [hdrop] at hvalue
  simpa using hvalue

/-! ## How much a text stands for -/

/-- A code unit that is no blank and no line end. -/
def isSolid (u : Nat) : Bool :=
  u != 32 && u != 10 && u != 13

/-- The number of solid code units. -/
def weight (us : List Nat) : Nat :=
  us.countP isSolid

@[simp] theorem weight_append (us vs : List Nat) : weight (us ++ vs) = weight us + weight vs := by
  simp [weight]

theorem weight_le_length (us : List Nat) : weight us ≤ us.length :=
  List.countP_le_length

theorem length_codeUnits_le (point : Nat) : (codeUnits point).length ≤ 2 := by
  rw [codeUnits]
  split <;> simp

/-- Only a character of one code unit has a small one. -/
theorem eq_of_mem_codeUnits {u point : Nat} (h : u ∈ codeUnits point) (hu : u < 0xD800) :
    u = point := by
  rw [codeUnits] at h
  split at h
  · simpa using h
  · simp only [List.mem_cons, List.not_mem_nil, or_false] at h
    omega

/-- What stands for no more than the text does, and for less if there is an escape in it.
Without an escape it has no backtick, line ends become line feeds, and all else stands for
itself. -/
structure Echoes (cs : List Char) (us : List Nat) : Prop where
  weight_le : weight us ≤ weight (units cs)
  weight_lt : '\\' ∈ cs → weight us < weight (units cs)
  no_backtick : '\\' ∉ cs → '\x60' ∉ cs
  no_return : '\\' ∉ cs → 13 ∉ us
  eq : '\\' ∉ cs → '\r' ∉ cs → us = units cs

namespace Echoes

variable {ds : List Char} {vs : List Nat}

theorem nil : Echoes [] [] := by
  constructor <;> simp

theorem append (h : Echoes cs us) (h' : Echoes ds vs) : Echoes (cs ++ ds) (us ++ vs) where
  weight_le := by
    have := h.weight_le
    have := h'.weight_le
    simp only [weight_append, units_append]
    omega
  weight_lt hs := by
    have hle := h.weight_le
    have hle' := h'.weight_le
    simp only [weight_append, units_append]
    rcases List.mem_append.1 hs with hs | hs
    · have := h.weight_lt hs
      omega
    · have := h'.weight_lt hs
      omega
  no_backtick hs := by
    simp only [List.mem_append, not_or] at hs ⊢
    exact ⟨h.no_backtick hs.1, h'.no_backtick hs.2⟩
  no_return hs := by
    simp only [List.mem_append, not_or] at hs ⊢
    exact ⟨h.no_return hs.1, h'.no_return hs.2⟩
  eq hs hr := by
    simp only [List.mem_append, not_or] at hs hr
    rw [h.eq hs.1 hr.1, h'.eq hs.2 hr.2, units_append]

/-- An escape stands for no more than the characters behind its backslash. -/
theorem of_escape (h : weight us ≤ weight (units cs)) : Echoes ('\\' :: cs) us := by
  have hlt : weight us < weight (units ('\\' :: cs)) := by
    have hslash : weight (codeUnits '\\'.toNat) = 1 := by decide
    simp only [units_cons, weight_append, hslash]
    omega
  have hmem : '\\' ∈ '\\' :: cs := List.mem_cons_self
  exact ⟨Nat.le_of_lt hlt, fun _ => hlt, fun h => absurd hmem h, fun h => absurd hmem h,
    fun h => absurd hmem h⟩

/-- A text without escapes, backticks and carriage returns stands for itself. -/
theorem self (hs : '\\' ∉ cs) (hc : '\x60' ∉ cs) (hr : '\r' ∉ cs) : Echoes cs (units cs) where
  weight_le := Nat.le_refl _
  weight_lt h := absurd h hs
  no_backtick _ := hc
  no_return _ hmem := by
    obtain ⟨c, hmem, hreturn⟩ := List.mem_flatMap.1 hmem
    obtain rfl : '\r' = c := Char.toNat_inj.1 (eq_of_mem_codeUnits hreturn (by decide))
    exact hr hmem
  eq _ _ := rfl

/-- A carriage return stands for a line feed. -/
theorem lineEnd (h : cs = ['\r'] ∨ cs = ['\r', '\n']) : Echoes cs [10] := by
  rcases h with rfl | rfl <;> exact ⟨by decide, by decide, by decide, by decide, by decide⟩

end Echoes

theorem weight_codeUnits {point : Nat} (h : isSolid point) : 1 ≤ weight (codeUnits point) := by
  rw [codeUnits]
  split
  · simp [weight, h]
  · have hsolid : isSolid (0xD800 + (point - 0x10000) / 0x400) := by
      simp only [isSolid, Bool.and_eq_true, bne_iff_ne]
      omega
    simp [weight, hsolid]

theorem isSolid_toNat (hb : c ≠ ' ') (he : isLineEnd c = false) : isSolid c.toNat := by
  simp only [isLineEnd, Bool.or_eq_false_iff, beq_eq_false_iff_ne] at he
  simp only [isSolid, Bool.and_eq_true, bne_iff_ne]
  refine ⟨⟨fun h => hb ?_, fun h => he.1.1.1 ?_⟩, fun h => he.1.1.2 ?_⟩ <;>
    exact Char.toNat_inj.1 h

theorem hexEscape_eq_some {count n : Nat} (h : hexEscape count cs = some (us, n)) :
    count ≤ cs.length ∧ n = count + 1 ∧ us.length = 1 := by
  rw [hexEscape] at h
  split at h
  · cases h
  · obtain ⟨k, -, heq⟩ := Option.map_eq_some_iff.1 h
    obtain ⟨rfl, rfl⟩ := Prod.mk.inj heq
    exact ⟨by omega, rfl, rfl⟩

theorem braceEscape_eq_some {n : Nat} (h : braceEscape cs = some (us, n)) :
    n ≤ cs.length + 2 ∧ 3 ≤ n ∧ us.length ≤ 2 := by
  simp only [braceEscape] at h
  split at h
  · cases h
  next hdigits =>
    obtain ⟨k, -, heq⟩ := Option.map_eq_some_iff.1 h
    obtain ⟨rfl, rfl⟩ := Prod.mk.inj heq
    have hle : (cs.takeWhile (· != '}')).length ≤ cs.length := (List.takeWhile_prefix _).length_le
    simp only [Bool.or_eq_true, beq_iff_eq, not_or] at hdigits
    exact ⟨by omega, by omega, length_codeUnits_le k⟩

/-- One code unit is no more than a text that begins with a solid character. -/
theorem weight_le_of_isSolid (hc : isSolid c.toNat) (hlen : us.length ≤ 1) (cs : List Char) :
    weight us ≤ weight (units (c :: cs)) := by
  have hle := weight_le_length us
  have hpos := weight_codeUnits hc
  simp only [units_cons, weight_append]
  omega

/-- What a letter behind a backslash stands for is no more than the letter. -/
theorem weight_letter (hend : isLineEnd c = false) :
    weight (((controlLetters.lookup c).map fun n => [n]).getD (codeUnits c.toNat)) ≤
      weight (units [c]) := by
  cases hlookup : controlLetters.lookup c with
  | none => simp
  | some k =>
    have hblank : c ≠ ' ' := by
      rintro rfl
      have hnone : controlLetters.lookup ' ' = none := by decide
      cases hnone.symm.trans hlookup
    exact weight_le_of_isSolid (isSolid_toNat hblank hend) (by simp) []

/-- An escape stands for no more than the characters that belong to it. -/
theorem weight_escape {n : Nat} (h : escape cs = some (us, n)) :
    n ≤ cs.length ∧ weight us ≤ weight (units (cs.take n)) := by
  rw [escape.eq_def] at h
  split at h
  next => cases h
  next cs =>
    obtain ⟨hcount, rfl, hlen⟩ := hexEscape_eq_some h
    refine ⟨by simpa using hcount, ?_⟩
    exact weight_le_of_isSolid (by decide) (Nat.le_of_eq hlen) (cs.take 2)
  next cs =>
    obtain ⟨hn, hpos, hlen⟩ := braceEscape_eq_some h
    obtain ⟨n, rfl⟩ := Nat.exists_eq_add_of_le hpos
    have htake : ('u' :: '{' :: cs).take (3 + n) = ['u', '{'] ++ cs.take (n + 1) := by
      rw [show 3 + n = n + 1 + 1 + 1 by omega]
      rfl
    have hopen : weight (units ['u', '{']) = 2 := by decide
    have hle := weight_le_length us
    rw [htake, units_append, weight_append, hopen]
    simp only [List.length_cons]
    omega
  next cs _ =>
    obtain ⟨hcount, rfl, hlen⟩ := hexEscape_eq_some h
    refine ⟨by simpa using hcount, ?_⟩
    exact weight_le_of_isSolid (by decide) (Nat.le_of_eq hlen) (cs.take 4)
  next cs =>
    split at h
    next => cases h
    next =>
      obtain ⟨rfl, rfl⟩ := Prod.mk.inj (Option.some.inj h)
      exact ⟨by simp, weight_le_of_isSolid (by decide) (by simp) (cs.take 0)⟩
  next =>
    obtain ⟨rfl, rfl⟩ := Prod.mk.inj (Option.some.inj h)
    exact ⟨by simp, by simp [weight]⟩
  next c cs _ _ _ _ _ =>
    split at h
    next => cases h
    next =>
      split at h
      next =>
        obtain ⟨rfl, rfl⟩ := Prod.mk.inj (Option.some.inj h)
        exact ⟨by simp, by simp [weight]⟩
      next hend =>
        obtain ⟨rfl, rfl⟩ := Prod.mk.inj (Option.some.inj h)
        exact ⟨by simp, weight_letter (by simpa using hend)⟩

theorem exists_closed (h : (cs.takeWhile (· != '}')).length ≠ cs.length) :
    ∃ rest, cs = cs.takeWhile (· != '}') ++ '}' :: rest := by
  induction cs with
  | nil => simp at h
  | cons c cs ih =>
    by_cases hc : c = '}'
    · exact ⟨cs, by simp [hc]⟩
    · have hkeep : (c :: cs).takeWhile (· != '}') = c :: cs.takeWhile (· != '}') := by simp [hc]
      rw [hkeep, List.length_cons, List.length_cons, ne_eq, Nat.add_right_cancel_iff] at h
      obtain ⟨rest, hrest⟩ := ih h
      rw [hkeep]
      exact ⟨rest, by rw [List.cons_append, ← hrest]⟩

theorem substitution_eq_some {n : Nat} (h : substitution env cs = some (us, n)) :
    ∃ name rest, cs = name ++ '}' :: rest ∧ isIdentifierChars name ∧
      env (String.ofList name) = some us ∧ n = name.length + 2 := by
  simp only [TemplateLiteral.substitution] at h
  split at h
  next => cases h
  next hname =>
    obtain ⟨us', hus, heq⟩ := Option.map_eq_some_iff.1 h
    obtain ⟨rfl, rfl⟩ := Prod.mk.inj heq
    simp only [Bool.or_eq_true, Bool.not_eq_true', beq_iff_eq, not_or, Bool.not_eq_false] at hname
    obtain ⟨rest, hrest⟩ := exists_closed hname.2
    exact ⟨_, rest, hrest, hname.1, hus, rfl⟩

/-- A variable between braces is written without escapes. -/
theorem Echoes.substitution (hname : isIdentifierChars name) :
    Echoes (['$', '{'] ++ name ++ ['}']) (units (['$', '{'] ++ name ++ ['}'])) := by
  have hnot : ∀ c, isIdentifierChar c = false → c ∉ ['$', '{', '}'] →
      c ∉ ['$', '{'] ++ name ++ ['}'] := by
    intro c hc hbrace hmem
    have hname : c ∉ name := fun hmem =>
      absurd (isIdentifierChar_of_isIdentifierChars hname c hmem) (by simp [hc])
    simp only [List.mem_append, List.mem_cons] at hmem hbrace
    tauto
  exact .self (hnot _ (by decide) (by decide)) (hnot _ (by decide) (by decide))
    (hnot _ (by decide) (by decide))

/-- A part echoes its text when every variable stands for its own substitution. -/
theorem echoes_part (henv : ∀ name us, env (String.ofList name) = some us →
      us = units (['$', '{'] ++ name ++ ['}'])) (hc : c ≠ '\x60') {n : Nat}
    (h : part env (c :: cs) = some (us, n)) :
    n ≤ cs.length ∧ Echoes (c :: cs.take n) us := by
  rw [part.eq_def] at h
  split at h
  next => cases h
  next heq =>
    obtain ⟨rfl, rfl⟩ := List.cons.inj heq
    obtain ⟨hn, hweight⟩ := weight_escape h
    exact ⟨hn, .of_escape hweight⟩
  next heq =>
    obtain ⟨rfl, rfl⟩ := List.cons.inj heq
    obtain ⟨name, rest, rfl, hname, hus, rfl⟩ := substitution_eq_some h
    have htake : '$' :: ('{' :: (name ++ '}' :: rest)).take (name.length + 2) =
        ['$', '{'] ++ name ++ ['}'] := by
      simp [List.take_append, List.take_of_length_le]
    refine ⟨by simp, ?_⟩
    rw [htake, henv name us hus]
    exact .substitution hname
  next heq =>
    obtain ⟨rfl, rfl⟩ := List.cons.inj heq
    obtain ⟨rfl, rfl⟩ := Prod.mk.inj (Option.some.inj h)
    exact ⟨by simp, .lineEnd (.inr rfl)⟩
  next heq =>
    obtain ⟨rfl, rfl⟩ := List.cons.inj heq
    obtain ⟨rfl, rfl⟩ := Prod.mk.inj (Option.some.inj h)
    exact ⟨by simp, .lineEnd (.inl rfl)⟩
  next hslash _ _ hreturn heq =>
    obtain ⟨rfl, rfl⟩ := List.cons.inj heq
    obtain ⟨rfl, rfl⟩ := Prod.mk.inj (Option.some.inj h)
    have hself : Echoes [c] (units [c]) := by
      refine .self ?_ ?_ ?_
      · simpa [eq_comm] using hslash
      · simpa [eq_comm] using hc
      · simpa [eq_comm] using hreturn
    exact ⟨by simp, by simpa using hself⟩

/-- A template literal is made of a text, what it stands for, and its closing backtick. -/
theorem echoes_value (henv : ∀ name us, env (String.ofList name) = some us →
      us = units (['$', '{'] ++ name ++ ['}'])) {rest : List Char}
    (h : value env 0 cs = some (us, rest)) :
    ∃ body, cs = body ++ '\x60' :: rest ∧ Echoes body us := by
  induction hlen : cs.length using Nat.strongRecOn generalizing cs us with
  | ind len ih =>
    cases cs with
    | nil => cases h
    | cons c cs =>
      by_cases hc : c = '\x60'
      · subst hc
        rw [value_close] at h
        obtain ⟨rfl, rfl⟩ := Prod.mk.inj (Option.some.inj h)
        exact ⟨[], rfl, .nil⟩
      · cases hpart : part env (c :: cs) with
        | none => simp [value, hc, hpart] at h
        | some r =>
          obtain ⟨vs, n⟩ := r
          obtain ⟨hn, hechoes⟩ := echoes_part henv hc hpart
          rw [value_cons hc hpart] at h
          obtain ⟨⟨ws, rest'⟩, hvalue, heq⟩ := Option.map_eq_some_iff.1 h
          obtain ⟨rfl, rfl⟩ := Prod.mk.inj heq
          have hlt : (cs.drop n).length < len := by
            simp only [← hlen, List.length_drop, List.length_cons]
            omega
          obtain ⟨body, hbody, hechoes'⟩ := ih _ hlt hvalue rfl
          refine ⟨c :: cs.take n ++ body, ?_, hechoes.append hechoes'⟩
          rw [List.cons_append, List.cons_append, List.append_assoc, ← hbody,
            List.take_append_drop]

end SwaggerClient.TemplateLiteral
