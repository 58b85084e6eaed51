import SwaggerClient.Proofs.Client.TemplateLiteral
import SwaggerClient.TypeExpr.Render

/-!
# String literals

How a literal in single quotes is read: a quote ends it, a backslash begins an escape as it does in
a template literal, and any other character stands for itself, but a line feed or a carriage return
may not stand in it.  Quoting writes a backslash in front of quotes and backslashes, so a quoted
text is read back as long as it is on one line.
-/

namespace SwaggerClient.StringLiteral

open TemplateLiteral (codeUnits escape units)

/-! ## Reading -/

/-- What the first part of a string literal stands for, and how many characters behind the first
belong to it. -/
def part : List Char → Option (List Nat × Nat)
  | [] => none
  | '\\' :: cs => escape cs
  | '\n' :: _ => none
  | '\r' :: _ => none
  | c :: _ => some (codeUnits c.toNat, 0)

/-- The value of a string literal behind its opening quote, and the text behind its closing one.
The number says how many characters belong to the part that has been read. -/
def value : Nat → List Char → Option (List Nat × List Char)
  | _, [] => none
  | skip + 1, _ :: cs => value skip cs
  | 0, c :: cs =>
    if c = '\'' then some ([], cs)
    else
      match part (c :: cs) with
      | none => none
      | some (us, skip) => (value skip cs).map fun (vs, rest) => (us ++ vs, rest)

/-- The value of the string literal that a text begins with, and the text behind it. -/
def read : List Char → Option (List Nat × List Char)
  | '\'' :: cs => value 0 cs
  | _ => none

/-- Whether a text is one complete string literal that stands for a string, whatever comes behind
it. -/
def IsLiteralOf (text s : String) : Prop :=
  ∀ rest, read (text.toList ++ rest) = some (units s.toList, rest)

variable {c : Char} {cs : List Char}

@[simp] theorem value_close (cs : List Char) : value 0 ('\'' :: cs) = some ([], cs) := rfl

theorem value_char (hq : c ≠ '\'') (hs : c ≠ '\\') (hn : c ≠ '\n') (hr : c ≠ '\r') :
    value 0 (c :: cs) =
      (value 0 cs).map fun (vs, rest) => (codeUnits c.toNat ++ vs, rest) := by
  have hpart : part (c :: cs) = some (codeUnits c.toNat, 0) := by
    rw [part.eq_def]
    split <;> simp_all
  simp [value, hq, hpart]

/-- Behind a backslash a quote or a backslash stands for itself. -/
theorem value_escaped (hc : c = '\\' ∨ c = '\'') :
    value 0 ('\\' :: c :: cs) =
      (value 0 cs).map fun (vs, rest) => (codeUnits c.toNat ++ vs, rest) := by
  rcases hc with rfl | rfl <;> rfl

/-! ## Quoted text -/

/-- Whether a string has no line feed and no carriage return. -/
def OnOneLine (s : String) : Prop :=
  '\n' ∉ s.toList ∧ '\r' ∉ s.toList

instance (s : String) : Decidable (OnOneLine s) :=
  inferInstanceAs (Decidable (_ ∧ _))

/-- A quoted character that ends no line stands for itself. -/
theorem value_quotedChar (hn : c ≠ '\n') (hr : c ≠ '\r') (cs : List Char) :
    value 0 (Text.quotedChar c ++ cs) =
      (value 0 cs).map fun (vs, rest) => (codeUnits c.toNat ++ vs, rest) := by
  rw [Text.quotedChar]
  split
  next hc => exact value_escaped hc
  next hc =>
    rw [not_or] at hc
    exact value_char hc.2 hc.1 hn hr

/-- A quoted text on one line is read up to its closing quote. -/
theorem value_quotedChars (hn : '\n' ∉ cs) (hr : '\r' ∉ cs) (rest : List Char) :
    value 0 (Text.quotedChars cs ++ '\'' :: rest) = some (units cs, rest) := by
  induction cs with
  | nil => rfl
  | cons c cs ih =>
    obtain ⟨hcn, hn⟩ := List.ne_and_not_mem_of_not_mem_cons hn
    obtain ⟨hcr, hr⟩ := List.ne_and_not_mem_of_not_mem_cons hr
    rw [Text.quotedChars, List.flatMap_cons, ← Text.quotedChars, List.append_assoc,
      value_quotedChar hcn.symm hcr.symm, ih hn hr]
    rfl

/-- A quoted text over several lines is not read. -/
theorem value_quotedChars_eq_none (h : '\n' ∈ cs ∨ '\r' ∈ cs) (rest : List Char) :
    value 0 (Text.quotedChars cs ++ '\'' :: rest) = none := by
  induction cs with
  | nil => simp at h
  | cons c cs ih =>
    rw [Text.quotedChars, List.flatMap_cons, ← Text.quotedChars, List.append_assoc]
    by_cases hend : c = '\n' ∨ c = '\r'
    · rcases hend with rfl | rfl <;> rfl
    · rw [not_or] at hend
      have hrest : '\n' ∈ cs ∨ '\r' ∈ cs :=
        h.imp (fun h => (List.mem_cons.1 h).resolve_left (Ne.symm hend.1))
          fun h => (List.mem_cons.1 h).resolve_left (Ne.symm hend.2)
      rw [value_quotedChar hend.1 hend.2, ih hrest]
      rfl

variable {s : String}

theorem read_quote (h : OnOneLine s) (rest : List Char) :
    read ((Text.quote s).toList ++ rest) = some (units s.toList, rest) := by
  have hvalue := value_quotedChars h.1 h.2 rest
  simpa [Text.quote, read] using hvalue

theorem read_quote_eq_none (h : ¬ OnOneLine s) (rest : List Char) :
    read ((Text.quote s).toList ++ rest) = none := by
  have hends : '\n' ∈ s.toList ∨ '\r' ∈ s.toList := by
    rw [OnOneLine, not_and_or, not_not, not_not] at h
    exact h
  have hvalue := value_quotedChars_eq_none hends rest
  simpa [Text.quote, read] using hvalue

theorem isLiteralOf_quote_iff : IsLiteralOf (Text.quote s) s ↔ OnOneLine s := by
  refine ⟨fun h => ?_, read_quote⟩
  by_contra hends
  have hread := h []
  rw [read_quote_eq_none hends] at hread
  cases hread

/-! ## Where text is quoted -/

/-- A literal by itself has no parentheses around it. -/
theorem renderAt_text (s : String) (position : Position) :
    (TypeExpr.literals [.text s]).renderAt position = Text.quote s := by
  have hchars : (TypeExpr.literals [.text s]).chars position =
      parenthesized (position == .operand && false) (Text.quote s).toList := rfl
  rw [TypeExpr.renderAt, hchars, Bool.and_false, parenthesized, if_neg Bool.false_ne_true,
    String.ofList_toList]

theorem read_of_ne (hc : c ≠ '\'') : read (c :: cs) = none := by
  rw [read]
  rintro rest h
  exact hc (List.cons.inj h).1

/-- An identifier is no literal. -/
theorem not_isLiteralOf_of_isIdentifier (h : isIdentifier s) : ¬ IsLiteralOf s s := by
  intro hliteral
  obtain ⟨c, rest, hs, hc⟩ := exists_of_isIdentifierChars h
  have hquote : c ≠ '\'' := by
    rintro rfl
    exact absurd hc (by decide)
  have hread := hliteral []
  rw [hs, List.cons_append, read_of_ne hquote] at hread
  cases hread

/-- The literal of a text, wherever a type is written, and the key of a member are string literals
for the text and for the name of the member exactly when these are on one line, and for the key when
it needs quotes at all.  When there are several lines no literal can be read at all. -/
theorem isLiteralOf_iff (s : String) :
    (∀ position, IsLiteralOf ((TypeExpr.literals [.text s]).renderAt position) s ↔ OnOneLine s) ∧
      (IsLiteralOf (propertyKey s) s ↔ isIdentifier s = false ∧ OnOneLine s) ∧
      (¬ OnOneLine s → ∀ rest, read ((Text.quote s).toList ++ rest) = none) := by
  refine ⟨fun position => ?_, ?_, fun h => read_quote_eq_none h⟩
  · rw [renderAt_text]
    exact isLiteralOf_quote_iff
  · unfold propertyKey
    split
    next h => simp [h, not_isLiteralOf_of_isIdentifier h]
    next h => simp [h, isLiteralOf_quote_iff]

/-- A line feed stands in the literal as it is, and ends the line before the quote. -/
theorem renderAt_lines_not_isLiteralOf :
    (TypeExpr.literals [.text "a\nb"]).renderAt .top = "'a\nb'" ∧
      ¬ IsLiteralOf ((TypeExpr.literals [.text "a\nb"]).renderAt .top) "a\nb" := by
  refine ⟨by decide, fun h => ?_⟩
  rw [renderAt_text, isLiteralOf_quote_iff] at h
  exact absurd h (by decide)

end SwaggerClient.StringLiteral
