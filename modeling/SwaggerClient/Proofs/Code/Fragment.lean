import SwaggerClient.Code.Fragment
import SwaggerClient.Proofs.Text.Split

/-!
# Text over several lines

Text at a depth is written line by line, so a text inside a line gets blanks behind its line
feeds.  Only a text without line feeds stays as it is.
-/

namespace SwaggerClient

namespace Code

variable {depth : Nat} {line cs : List Char}

/-! ## Fragments -/

@[simp] theorem charsOfAll_nil (depth : Nat) : charsOfAll depth [] = [] := rfl

@[simp] theorem charsOfAll_cons (depth : Nat) (fragment : Fragment) (fragments : List Fragment) :
    charsOfAll depth (fragment :: fragments) =
      fragment.chars depth ++ charsOfAll depth fragments := rfl

@[simp] theorem chars_line (depth : Nat) (text : String) :
    (Fragment.line text).chars depth = textAt depth text.toList := rfl

@[simp] theorem chars_doc (depth : Nat) (text : String) :
    (Fragment.doc text).chars depth = docAt depth text.toList := rfl

@[simp] theorem chars_indent (depth : Nat) (body : List Fragment) :
    (Fragment.indent body).chars depth = charsOfAll (depth + 1) body := rfl

@[simp] theorem chars_block (depth : Nat) (header : String) (body : List Fragment)
    (close : String) :
    (Fragment.block header body (some close)).chars depth =
      textAt depth header.toList ++ charsOfAll (depth + 1) body ++ textAt depth close.toList := rfl

theorem charsOfAll_append (depth : Nat) (fragments others : List Fragment) :
    charsOfAll depth (fragments ++ others) =
      charsOfAll depth fragments ++ charsOfAll depth others := by
  induction fragments with
  | nil => rfl
  | cons fragment fragments ih => simp [ih]

/-- The text of a fragment stands in the text of the fragments that it is one of. -/
theorem chars_infix_charsOfAll (depth : Nat) {fragment : Fragment} {fragments : List Fragment}
    (h : fragment ∈ fragments) : fragment.chars depth <:+: charsOfAll depth fragments := by
  obtain ⟨before, after, rfl⟩ := List.append_of_mem h
  refine ⟨charsOfAll depth before, charsOfAll depth after, ?_⟩
  rw [charsOfAll_append, charsOfAll_cons, List.append_assoc]

/-- A function whose body catches what fails. -/
theorem chars_tryCatch (doc header start opening stop success handler failure brace close : String)
    (body : List Fragment) :
    charsOfAll 0 [.doc doc, .block header
      [.block start [.block opening body (some stop), .line success] (some handler),
        .indent [.line failure], .line brace] (some close)] =
      (docAt 0 doc.toList ++ textAt 0 header.toList ++ textAt 1 start.toList
          ++ textAt 2 opening.toList)
        ++ charsOfAll 3 body
        ++ (textAt 2 stop.toList ++ textAt 2 success.toList ++ textAt 1 handler.toList
          ++ textAt 2 failure.toList ++ textAt 1 brace.toList ++ textAt 0 close.toList) := by
  simp

/-! ## Lines -/

theorem textAt_line (h : '\n' ∉ line) : textAt depth line = lineAt depth line := by
  simp [textAt, Text.splitOn_of_not_mem h]

theorem lineAt_zero (line : List Char) : lineAt 0 line = line ++ ['\n'] := by
  by_cases h : line = [] <;> simp [lineAt, blanks, h]

/-- Text at the left margin stays as it is, however many lines it has. -/
theorem textAt_zero (cs : List Char) : textAt 0 cs = cs ++ ['\n'] := by
  induction cs with
  | nil => rfl
  | cons c cs ih =>
    obtain ⟨piece, pieces, hsplit⟩ := List.exists_cons_of_ne_nil (Text.splitOn_ne_nil '\n' cs)
    rw [textAt, hsplit] at ih
    by_cases hc : c = '\n'
    · subst hc
      simpa [textAt, Text.splitOn, hsplit, lineAt_zero] using ih
    · simpa [textAt, Text.splitOn, hsplit, lineAt_zero, hc] using ih

theorem textAt_append_newline (h : '\n' ∉ line) (cs : List Char) :
    textAt depth (line ++ '\n' :: cs) = lineAt depth line ++ textAt depth cs := by
  simp [textAt, Text.splitOn_append_cons, Text.splitOn_of_not_mem h]

/-- Text inside a line as it is written at a depth: behind a line feed come the blanks of
the next line, unless that line is empty. -/
def hanging (depth : Nat) : List Char → List Char
  | [] => []
  | c :: cs =>
    if c = '\n' then
      '\n' :: ((if cs.head? = some '\n' then [] else blanks depth) ++ hanging depth cs)
    else c :: hanging depth cs

theorem hanging_of_not_mem (h : '\n' ∉ cs) : hanging depth cs = cs := by
  induction cs with
  | nil => rfl
  | cons c cs ih =>
    obtain ⟨hc, hcs⟩ := List.ne_and_not_mem_of_not_mem_cons h
    simp [hanging, Ne.symm hc, ih hcs]

theorem sublist_hanging (depth : Nat) (cs : List Char) : cs.Sublist (hanging depth cs) := by
  induction cs with
  | nil => exact List.Sublist.refl _
  | cons c cs ih =>
    rw [hanging]
    split
    next h =>
      rw [h]
      exact (ih.trans (List.sublist_append_right _ _)).cons_cons _
    next => exact ih.cons_cons _

theorem mem_of_mem_hanging {c : Char} (h : c ∈ hanging depth cs) : c ∈ cs ∨ c = ' ' := by
  induction cs with
  | nil => cases h
  | cons d cs ih =>
    rw [hanging] at h
    split at h
    next hd =>
      simp only [List.mem_cons, List.mem_append, hd] at h ⊢
      rcases h with h | h | h
      · exact .inl (.inl h)
      · split at h
        · cases h
        · exact .inr (List.eq_of_mem_replicate h)
      · exact (ih h).imp_left .inr
    next =>
      rcases List.mem_cons.1 h with h | h
      · exact .inl (List.mem_cons.2 (.inl h))
      · exact (ih h).imp_left (List.mem_cons_of_mem _)

/-- A text in the middle of a line, written at a depth.  The line has its blanks unless
nothing is left of it. -/
theorem textAt_middle {start stop : List Char} (hstart : '\n' ∉ start) (hstop : '\n' ∉ stop)
    (hne : stop ≠ []) (cs : List Char) :
    textAt depth (start ++ cs ++ stop) =
      (if start = [] ∧ cs.head? = some '\n' then [] else blanks depth)
        ++ start ++ hanging depth cs ++ stop ++ ['\n'] := by
  induction cs generalizing start with
  | nil =>
    have hline : '\n' ∉ start ++ stop := by simp [hstart, hstop]
    simp [textAt_line hline, lineAt, hne, hanging]
  | cons c cs ih =>
    by_cases hc : c = '\n'
    · subst hc
      have htext : textAt depth (start ++ '\n' :: cs ++ stop) =
          lineAt depth start ++ textAt depth ([] ++ cs ++ stop) := by
        simpa using textAt_append_newline hstart (cs ++ stop)
      rw [htext, ih (List.not_mem_nil)]
      by_cases hs : start = []
      · simp [hs, lineAt, hanging]
      · simp [hs, lineAt, hanging]
    · have hline : '\n' ∉ start ++ [c] := by simp [hstart, Ne.symm hc]
      simpa [hanging, hc] using ih hline

end Code

end SwaggerClient
