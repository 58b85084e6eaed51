import SwaggerClient.UrlTemplate

/-!
# Where the placeholders of a URL template are

A placeholder begins at the first opening brace that is closed, and ends at the first closing
brace behind it, whatever stands in between.  That says how every text is cut into pieces, and
the scan of a template does just that.
-/

namespace SwaggerClient.UrlTemplate

/-- Whether pieces are what a text is cut into.  An opening brace that is closed begins a
placeholder, and any other character is text. -/
inductive Cut : List Char → List Piece → Prop
  | nil : Cut [] []
  | char {c : Char} {cs : List Char} {ps : List Piece} (hopen : c = '{' → '}' ∉ cs)
      (h : Cut cs ps) : Cut (c :: cs) (.char c :: ps)
  | placeholder {name cs : List Char} {ps : List Piece} (hname : '}' ∉ name) (h : Cut cs ps) :
      Cut ('{' :: (name ++ '}' :: cs)) (.placeholder name :: ps)

variable {name cs : List Char} {ps : List Piece}

/-- Text without a closing brace has no placeholder. -/
theorem scan_of_not_mem (h : '}' ∉ cs) : scan none cs = cs.map .char := by
  suffices ∀ name, scan none cs = cs.map .char ∧
      scan (some name) cs = .char '{' :: (name ++ cs).map .char from (this []).1
  induction cs with
  | nil => simp [scan]
  | cons c cs ih =>
    rw [List.mem_cons, not_or] at h
    intro name
    have hnone := (ih h.2 []).1
    have hopen := (ih h.2 []).2
    have hsome := (ih h.2 (name ++ [c])).2
    by_cases hc : c = '{'
    · subst hc
      simp [scan, hopen, hsome]
    · simp [scan, hc, Ne.symm h.1, hnone, hsome]

/-- An open placeholder ends at the first closing brace. -/
theorem scan_open (h : '}' ∉ name) (before : List Char) :
    scan (some before) (name ++ '}' :: cs) = .placeholder (before ++ name) :: scan none cs := by
  induction name generalizing before with
  | nil => simp [scan]
  | cons c name ih =>
    rw [List.mem_cons, not_or] at h
    rw [List.cons_append, scan, if_neg (Ne.symm h.1), ih h.2]
    simp

theorem Cut.eq_scan (h : Cut cs ps) : ps = scan none cs := by
  induction h with
  | nil => rfl
  | @char c cs ps hopen h ih =>
    by_cases hc : c = '{'
    · have hcs : '}' ∉ c :: cs := by simp [hc, hopen hc]
      rw [ih, scan_of_not_mem (hopen hc), scan_of_not_mem hcs, List.map_cons]
    · rw [scan, if_neg hc, ih]
  | placeholder hname h ih => rw [scan, if_pos rfl, scan_open hname, ih, List.nil_append]

theorem cut_scan (cs : List Char) : Cut cs (scan none cs) := by
  induction hlength : cs.length using Nat.strongRecOn generalizing cs with
  | ind length ih =>
    subst hlength
    rcases cs with _ | ⟨c, cs⟩
    · exact .nil
    · have hrest : Cut cs (scan none cs) := ih cs.length (by simp) cs rfl
      by_cases hc : c = '{'
      · subst hc
        by_cases hclosed : '}' ∈ cs
        · obtain ⟨name, rest, rfl, hname⟩ := List.eq_append_cons_of_mem hclosed
          have hshorter : rest.length < ('{' :: (name ++ '}' :: rest)).length := by
            simp only [List.length_cons, List.length_append]
            omega
          rw [scan, if_pos rfl, scan_open hname, List.nil_append]
          exact .placeholder hname (ih rest.length hshorter rest rfl)
        · have hcs : '}' ∉ '{' :: cs := by simpa using hclosed
          rw [scan_of_not_mem hcs, List.map_cons, ← scan_of_not_mem hclosed]
          exact .char (fun _ => hclosed) hrest
      · rw [scan, if_neg hc]
        exact .char (fun h => absurd h hc) hrest

/-- A brace that is text has no closing brace behind it. -/
theorem Cut.unclosed {qs : List Piece} (h : Cut cs (ps ++ .char '{' :: qs)) :
    ∃ rest : List Char, '}' ∉ rest ∧ qs = rest.map .char := by
  induction ps generalizing cs with
  | nil =>
    cases h with
    | @char _ cs _ hopen h =>
      refine ⟨cs, hopen rfl, ?_⟩
      rw [h.eq_scan, scan_of_not_mem (hopen rfl)]
  | cons p ps ih =>
    cases h with
    | char _ h => exact ih h
    | placeholder _ h => exact ih h

/-- A template is cut into its pieces, and in no other way. -/
theorem cut_iff {url : String} : Cut url.toList ps ↔ ps = pieces url := by
  constructor
  · exact Cut.eq_scan
  · rintro rfl
    exact cut_scan url.toList

end SwaggerClient.UrlTemplate
