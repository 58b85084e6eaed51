import SwaggerClient.Proofs.Text.Split

/-!
# Lines of a text

A text is lines that line feeds end, and a last one that none does.  Cutting a text that ends its
last line and ending each line again gives the text back, without the carriage returns that stand
in front of line feeds.
-/

namespace SwaggerClient.Text

variable {line rest cs : List Char} {c : Char}

/-- A text without the carriage returns that stand directly in front of a line feed. -/
def dropReturns : List Char → List Char
  | [] => []
  | '\r' :: '\n' :: cs => '\n' :: dropReturns cs
  | c :: cs => c :: dropReturns cs

/-- Induction on a text line by line. -/
theorem lines_induction {p : List Char → Prop} (last : ∀ line, '\n' ∉ line → p line)
    (ended : ∀ line rest, '\n' ∉ line → p rest → p (line ++ '\n' :: rest)) (cs : List Char) :
    p cs := by
  induction hlen : cs.length using Nat.strongRecOn generalizing cs with
  | ind len ih =>
    by_cases h : '\n' ∈ cs
    · obtain ⟨line, rest, rfl, hline⟩ := List.eq_append_cons_of_mem h
      have hlt : rest.length < len := by
        rw [← hlen, List.length_append, List.length_cons]
        omega
      exact ended line rest hline (ih rest.length hlt rest rfl)
    · exact last cs h

/-! ## Cutting into lines -/

theorem lineList_of_not_mem (h : '\n' ∉ line) :
    lineList line = if line.isEmpty then [] else [line] := by
  rw [lineList, splitOn_of_not_mem h, linesOfPieces]

theorem lineList_append_newline (h : '\n' ∉ line) (rest : List Char) :
    lineList (line ++ '\n' :: rest) = chompReturn line :: lineList rest := by
  obtain ⟨piece, pieces, hsplit⟩ := List.exists_cons_of_ne_nil (splitOn_ne_nil '\n' rest)
  rw [lineList, lineList, splitOn_append_cons, splitOn_of_not_mem h, hsplit]
  rfl

theorem isPrefix_chompReturn (line : List Char) : chompReturn line <+: line := by
  unfold chompReturn
  split
  · exact List.dropLast_prefix line
  · exact List.prefix_rfl

/-- A line is a part of the text and holds no line feed. -/
theorem infix_of_mem_lineList (h : line ∈ lineList cs) : line <:+: cs ∧ '\n' ∉ line := by
  induction cs using lines_induction with
  | last only honly =>
    rw [lineList_of_not_mem honly] at h
    split at h
    · cases h
    · obtain rfl := List.mem_singleton.1 h
      exact ⟨List.infix_rfl, honly⟩
  | ended first rest hfirst ih =>
    rw [lineList_append_newline hfirst] at h
    rcases List.mem_cons.1 h with rfl | h
    · have hlead := isPrefix_chompReturn first
      exact ⟨hlead.isInfix.trans (List.prefix_append _ _).isInfix,
        fun hmem => hfirst (hlead.subset hmem)⟩
    · obtain ⟨hpart, hline⟩ := ih h
      refine ⟨hpart.trans ?_, hline⟩
      exact (List.suffix_append_of_suffix (List.suffix_cons '\n' rest)).isInfix

/-- A line feed that ends the last line does not make another line. -/
theorem lineList_concat_newline (hc : c ≠ '\r') (hn : c ≠ '\n') (cs : List Char) :
    lineList (cs ++ [c] ++ ['\n']) = lineList (cs ++ [c]) := by
  induction cs using lines_induction with
  | last line hline =>
    have hmem : '\n' ∉ line ++ [c] := by simp [hline, Ne.symm hn]
    rw [lineList_append_newline hmem, lineList_of_not_mem hmem]
    simp [chompReturn, hc, lineList_of_not_mem]
  | ended line rest hline ih =>
    simpa [lineList_append_newline hline] using ih

/-! ## Carriage returns -/

theorem dropReturns_cons (h : c = '\r' → cs.head? ≠ some '\n') :
    dropReturns (c :: cs) = c :: dropReturns cs := by
  rw [dropReturns]
  rintro rest rfl rfl
  exact h rfl rfl

theorem dropReturns_append_cons (hc : c ≠ '\n') (rest : List Char) :
    dropReturns (cs ++ c :: rest) = dropReturns cs ++ dropReturns (c :: rest) := by
  induction cs using dropReturns.induct with
  | case1 => rfl
  | case2 cs ih => simp [dropReturns, ih]
  | case3 d cs hd ih =>
    have hhead : d = '\r' → (cs ++ c :: rest).head? ≠ some '\n' := by
      rintro rfl
      cases cs with
      | nil => simpa using hc
      | cons e cs => simpa using hd cs rfl
    rw [List.cons_append, dropReturns_cons hhead, dropReturns, ih, List.cons_append]
    exact hd

/-- Carriage returns in front of a line feed are looked for line by line. -/
theorem dropReturns_append_newline (h : '\n' ∉ line) (rest : List Char) :
    dropReturns (line ++ '\n' :: rest) = chompReturn line ++ '\n' :: dropReturns rest := by
  induction line with
  | nil => rfl
  | cons c line ih =>
    obtain ⟨hc, hline⟩ := List.ne_and_not_mem_of_not_mem_cons h
    have ih := ih hline
    cases line with
    | nil =>
      by_cases hr : c = '\r'
      · subst hr
        rfl
      · have hdrop : dropReturns (c :: '\n' :: rest) = c :: dropReturns ('\n' :: rest) :=
          dropReturns_cons fun h => absurd h hr
        simpa [chompReturn, hr, hdrop] using ih
    | cons d line =>
      have hd : d ≠ '\n' := fun heq => hline (heq ▸ List.mem_cons_self)
      have hdrop : dropReturns (c :: (d :: line ++ '\n' :: rest)) =
          c :: dropReturns (d :: line ++ '\n' :: rest) :=
        dropReturns_cons fun _ => by simpa using hd
      have hchomp : chompReturn (c :: d :: line) = c :: chompReturn (d :: line) := by
        unfold chompReturn
        rw [List.getLast?_cons_cons]
        split <;> rfl
      rw [List.cons_append, hdrop, ih, hchomp, List.cons_append]

/-- Ending each line of a text that ends its last line gives the text back, without carriage
returns. -/
theorem flatMap_lineList (cs : List Char) :
    (lineList (cs ++ ['\n'])).flatMap (· ++ ['\n']) = dropReturns (cs ++ ['\n']) := by
  induction cs using lines_induction with
  | last line hline =>
    rw [lineList_append_newline hline, dropReturns_append_newline hline]
    simp [lineList_of_not_mem, dropReturns]
  | ended line rest hline ih =>
    simp only [List.append_assoc, List.cons_append]
    rw [lineList_append_newline hline, dropReturns_append_newline hline, List.flatMap_cons, ih,
      List.append_assoc, List.singleton_append]

end SwaggerClient.Text
