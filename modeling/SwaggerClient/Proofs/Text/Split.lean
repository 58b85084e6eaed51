import Mathlib.Data.List.Basic
import Mathlib.Data.List.TakeWhile
import SwaggerClient.Text.Split

/-!
# Pieces of a text

A text is cut behind the characters that have a property, or at every separator.  The pieces between
separators hold no separator and nothing that is not in the text, and they are found in what stands
in front of a separator and behind it separately.
-/

namespace SwaggerClient

/-! ## Cutting a text behind its first part -/

section Cut

variable {α : Type} {p : α → Bool} {l r : List α}

theorem takeWhile_append_stop (hl : ∀ a ∈ l, p a) (hr : ∀ a ∈ r.head?, p a = false) :
    (l ++ r).takeWhile p = l := by
  rw [List.takeWhile_append_of_pos hl]
  cases r with
  | nil => simp
  | cons a r => simp [hr a (by simp)]

theorem dropWhile_append_stop (hl : ∀ a ∈ l, p a) (hr : ∀ a ∈ r.head?, p a = false) :
    (l ++ r).dropWhile p = r := by
  rw [List.dropWhile_append_of_pos hl]
  cases r with
  | nil => simp
  | cons a r => simp [hr a (by simp)]

end Cut

/-! ## Pieces between separators -/

namespace Text

variable {sep c : Char} {cs piece : List Char}

theorem splitOn_of_not_mem (h : sep ∉ cs) : splitOn sep cs = [cs] := by
  induction cs with
  | nil => rfl
  | cons c cs ih =>
    obtain ⟨hc, hcs⟩ := List.ne_and_not_mem_of_not_mem_cons h
    simp [splitOn, Ne.symm hc, ih hcs]

theorem splitOn_append_cons (cs ds : List Char) :
    splitOn sep (cs ++ sep :: ds) = splitOn sep cs ++ splitOn sep ds := by
  induction cs with
  | nil => simp [splitOn]
  | cons c cs ih =>
    rw [List.cons_append, splitOn, splitOn]
    split
    next => rw [ih, List.cons_append]
    next =>
      obtain ⟨first, pieces, hsplit⟩ := List.exists_cons_of_ne_nil (splitOn_ne_nil sep cs)
      rw [ih, hsplit]
      rfl

/-- The characters of a piece are characters of the text, and none is the separator. -/
theorem ne_and_mem_of_mem_splitOn (hp : piece ∈ splitOn sep cs) (hc : c ∈ piece) :
    c ≠ sep ∧ c ∈ cs := by
  induction cs generalizing piece with
  | nil =>
    rw [splitOn, List.mem_singleton] at hp
    rw [hp] at hc
    cases hc
  | cons d cs ih =>
    have hrest : ∀ {piece}, piece ∈ splitOn sep cs → c ∈ piece → c ≠ sep ∧ c ∈ d :: cs :=
      fun hp hc => (ih hp hc).imp_right (List.mem_cons_of_mem d)
    unfold splitOn at hp
    split at hp
    next =>
      rcases List.mem_cons.1 hp with rfl | hp
      · cases hc
      · exact hrest hp hc
    next hd =>
      obtain ⟨first, pieces, hsplit⟩ := List.exists_cons_of_ne_nil (splitOn_ne_nil sep cs)
      rw [hsplit] at hp
      rcases List.mem_cons.1 hp with rfl | hp
      · rcases List.mem_cons.1 hc with rfl | hc
        · exact ⟨hd, List.mem_cons_self⟩
        · exact hrest (hsplit ▸ List.mem_cons_self) hc
      · exact hrest (hsplit ▸ List.mem_cons_of_mem _ hp) hc

end Text

end SwaggerClient
