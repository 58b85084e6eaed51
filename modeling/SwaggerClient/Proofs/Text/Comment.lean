import Mathlib.Data.List.Infix
import SwaggerClient.Text.Comment

/-!
# Ends of comments

Escaped text does not hold the end of a comment, text that does not hold it stays as it is, and so
escaping twice is escaping once.  The end of a comment does not arise where two texts meet, when a
character stands between them that is no part of it.
-/

namespace SwaggerClient.Text

variable {cs ds : List Char} {c : Char}

/-- The two characters that end a block comment. -/
def commentEnd : List Char :=
  ['*', '/']

theorem commentEnd_infix_cons_iff :
    commentEnd <:+: c :: cs ↔ (c = '*' ∧ cs.head? = some '/') ∨ commentEnd <:+: cs := by
  rw [List.infix_cons_iff]
  refine or_congr_left ?_
  cases cs with
  | nil => simp [commentEnd]
  | cons d cs => simp [commentEnd, eq_comm]

/-! ## Escaped text -/

theorem head?_escapeCommentChars (cs : List Char) :
    (escapeCommentChars cs).head? = cs.head? := by
  unfold escapeCommentChars
  split <;> rfl

/-- Escaped text does not hold the end of a comment. -/
theorem not_infix_escapeCommentChars (cs : List Char) :
    ¬ commentEnd <:+: escapeCommentChars cs := by
  induction cs using escapeCommentChars.induct with
  | case1 => simp [escapeCommentChars, commentEnd]
  | case2 cs ih => simpa [escapeCommentChars, commentEnd_infix_cons_iff] using ih
  | case3 c cs hc ih =>
    rw [escapeCommentChars, commentEnd_infix_cons_iff, head?_escapeCommentChars, not_or]
    · refine ⟨?_, ih⟩
      rintro ⟨rfl, hslash⟩
      obtain ⟨rest, rfl⟩ := List.head?_eq_some_iff.1 hslash
      exact hc rest rfl rfl
    · exact hc

/-- Text that does not hold the end of a comment needs no escape. -/
theorem escapeCommentChars_eq_self (h : ¬ commentEnd <:+: cs) : escapeCommentChars cs = cs := by
  induction cs using escapeCommentChars.induct with
  | case1 => rfl
  | case2 cs => exact absurd ⟨[], cs, rfl⟩ h
  | case3 c cs hc ih =>
    rw [commentEnd_infix_cons_iff, not_or] at h
    rw [escapeCommentChars, ih h.2]
    exact hc

/-! ## Where comments end -/

/-- Whether the end of a comment stands in a text only in front of its final line feed. -/
def EndsOnly (cs : List Char) : Prop :=
  ∀ before after, cs = before ++ commentEnd ++ after → after = ['\n']

namespace EndsOnly

/-- The end of a comment by itself. -/
theorem close : EndsOnly ['*', '/', '\n'] := by
  intro before after h
  rcases before with _ | ⟨a, _ | ⟨b, _ | ⟨c, before⟩⟩⟩ <;> simp_all [commentEnd]

/-- A character that does not begin the end of a comment can stand in front. -/
theorem cons (hc : c ≠ '*') (h : EndsOnly cs) : EndsOnly (c :: cs) := by
  intro before after heq
  cases before with
  | nil => exact absurd (List.cons.inj heq).1 hc
  | cons d before => exact h before after (List.cons.inj heq).2

/-- Text that does not hold the end of a comment can stand in front of a character that is no part
of it. -/
theorem append (hs : ¬ commentEnd <:+: ds) (hstar : c ≠ '*') (hslash : c ≠ '/')
    (h : EndsOnly cs) : EndsOnly (ds ++ c :: cs) := by
  induction ds with
  | nil => exact h.cons hstar
  | cons d ds ih =>
    rw [commentEnd_infix_cons_iff, not_or] at hs
    intro before after heq
    cases before with
    | cons _ before => exact ih hs.2 before after (List.cons.inj heq).2
    | nil =>
      -- The first two characters are an end, so the second one is not the character between.
      obtain ⟨rfl, hrest⟩ := List.cons.inj heq
      cases ds with
      | nil => exact absurd (List.cons.inj hrest).1 hslash
      | cons e ds => exact absurd ⟨rfl, by rw [(List.cons.inj hrest).1]; rfl⟩ hs.1

end EndsOnly

end SwaggerClient.Text
