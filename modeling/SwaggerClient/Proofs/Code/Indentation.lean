import SwaggerClient.Code.Buffer
import SwaggerClient.Proofs.Code.Fragment
import SwaggerClient.Proofs.Text.Lines

/-!
# Indentation

A fragment is added to a buffer step by step: the buffer goes one level deeper for a body and comes
back behind it.  What is added in the end depends on the depth alone, and without raw text it is the
same lines at every depth, with blanks in front of those that hold something.
-/

namespace SwaggerClient

namespace Code

variable {line : List Char} {body : List Fragment}

/-! ## Buffers -/

namespace Buffer

theorem append_append (b : Buffer) (cs ds : List Char) :
    (b.append cs).append ds = b.append (cs ++ ds) := by
  simp [append, String.ofList_append, String.append_assoc]

@[simp] theorem append_nil (b : Buffer) : b.append [] = b := by
  simp [append]

/-- A buffer that adds text one level deeper comes back to where it was. -/
theorem dedent_append_deepen (b : Buffer) (cs : List Char) :
    (b.deepen.append cs).dedent = b.append cs := by
  simp [append, deepen, dedent]

mutual

/-- Adding a fragment adds its text at the depth of the buffer, and changes nothing else. -/
theorem push_eq (b : Buffer) (fragment : Fragment) :
    b.push fragment = b.append (fragment.chars b.depth) := by
  cases fragment with
  | line text => rfl
  | raw text => rfl
  | doc text => rfl
  | indent body =>
    rw [push, pushAll_eq, dedent_append_deepen]
    rfl
  | block header body close =>
    have hbody : ((b.pushLine header).deepen.pushAll body).dedent =
        b.append (textAt b.depth header.toList ++ charsOfAll (b.depth + 1) body) := by
      rw [pushAll_eq, dedent_append_deepen, pushLine, append_append]
      rfl
    cases close with
    | none =>
      rw [push, hbody]
      simp [Fragment.chars]
    | some close =>
      rw [push, hbody, pushLine, append_append]
      rfl

theorem pushAll_eq (b : Buffer) (fragments : List Fragment) :
    b.pushAll fragments = b.append (charsOfAll b.depth fragments) := by
  cases fragments with
  | nil => simp [pushAll]
  | cons fragment fragments =>
    rw [pushAll, push_eq, pushAll_eq, append_append]
    rfl

end

/-- Fragments at the left margin are what an empty buffer holds after adding them. -/
theorem text_pushAll (fragments : List Fragment) :
    (({} : Buffer).pushAll fragments).text = render fragments := by
  simp [pushAll_eq, append, render]

end Buffer

/-! ## Blanks in front of lines -/

/-- A line with blanks in front of it, if it holds something. -/
def indentedLine (width : Nat) (line : List Char) : List Char :=
  if line.isEmpty then [] else List.replicate width ' ' ++ line

/-- A text with blanks in front of every line that holds something. -/
def indented (width : Nat) (cs : List Char) : List Char :=
  Text.joinWith ['\n'] ((Text.splitOn '\n' cs).map (indentedLine width))

theorem lineAt_eq (depth : Nat) (line : List Char) :
    lineAt depth line = indentedLine (2 * depth) line ++ ['\n'] := by
  by_cases h : line.isEmpty <;> simp [lineAt, indentedLine, blanks, h]

/-- A line that is written one level deeper is a line with two blanks in front of it. -/
theorem lineAt_succ (depth : Nat) (line : List Char) :
    lineAt (depth + 1) line = lineAt depth (indentedLine 2 line) := by
  by_cases h : line = []
  · simp [lineAt, indentedLine, h]
  · have hblanks : blanks (depth + 1) = blanks depth ++ List.replicate 2 ' ' := by
      rw [blanks, blanks, ← List.replicate_add]
      congr 1
    simp [lineAt, indentedLine, h, hblanks]

theorem newline_not_mem_indentedLine (h : '\n' ∉ line) (width : Nat) :
    '\n' ∉ indentedLine width line := by
  by_cases hempty : line = [] <;> simp [indentedLine, hempty, h]

/-- The lines of a text get their blanks one by one. -/
theorem indented_append_newline (h : '\n' ∉ line) (width : Nat) (cs : List Char) :
    indented width (line ++ '\n' :: cs) = indentedLine width line ++ '\n' :: indented width cs := by
  obtain ⟨piece, pieces, hsplit⟩ := List.exists_cons_of_ne_nil (Text.splitOn_ne_nil '\n' cs)
  simp [indented, Text.splitOn_append_cons, Text.splitOn_of_not_mem h, hsplit, Text.joinWith]

/-- Lines written at a depth are the lines written at the left margin with the blanks of the
depth. -/
theorem flatMap_lineAt {lines : List (List Char)} (h : ∀ line ∈ lines, '\n' ∉ line) (depth : Nat) :
    lines.flatMap (lineAt depth) = indented (2 * depth) (lines.flatMap (lineAt 0)) := by
  induction lines with
  | nil => rfl
  | cons line lines ih =>
    obtain ⟨hline, hlines⟩ := List.forall_mem_cons.1 h
    simp only [List.flatMap_cons]
    rw [ih hlines, lineAt_zero, List.append_assoc, List.singleton_append,
      indented_append_newline hline, lineAt_eq]
    simp

/-! ## Fragments as lines -/

/-- Whether a fragment has no raw text in it. -/
inductive Fragment.Rawless : Fragment → Prop
  | line (text : String) : Rawless (.line text)
  | indent {body : List Fragment} (h : ∀ fragment ∈ body, fragment.Rawless) : Rawless (.indent body)
  | block (header : String) {body : List Fragment} (h : ∀ fragment ∈ body, fragment.Rawless)
      (close : Option String) : Rawless (.block header body close)
  | doc (text : String) : Rawless (.doc text)

/-- Whether what is written at each depth is lines that are the same at every depth. -/
def HasLines (written : Nat → List Char) : Prop :=
  ∃ lines : List (List Char), (∀ line ∈ lines, '\n' ∉ line) ∧
    ∀ depth, written depth = lines.flatMap (lineAt depth)

namespace HasLines

variable {written other : Nat → List Char}

theorem nil : HasLines fun _ => [] :=
  ⟨[], by simp, fun _ => rfl⟩

theorem append (h : HasLines written) (ho : HasLines other) :
    HasLines fun depth => written depth ++ other depth := by
  obtain ⟨lines, hnewline, hwritten⟩ := h
  obtain ⟨lines', hnewline', hother⟩ := ho
  refine ⟨lines ++ lines', ?_, fun depth => ?_⟩
  · intro line hline
    rcases List.mem_append.1 hline with hline | hline
    · exact hnewline line hline
    · exact hnewline' line hline
  · simp only [hwritten, hother, List.flatMap_append]

/-- What is written one level deeper is lines too. -/
theorem deeper (h : HasLines written) : HasLines fun depth => written (depth + 1) := by
  obtain ⟨lines, hnewline, hwritten⟩ := h
  refine ⟨lines.map (indentedLine 2), ?_, fun depth => ?_⟩
  · intro line hline
    obtain ⟨shallow, hshallow, rfl⟩ := List.mem_map.1 hline
    exact newline_not_mem_indentedLine (hnewline shallow hshallow) 2
  · simp only [hwritten, List.flatMap_map]
    exact List.flatMap_congr fun line _ => lineAt_succ depth line

theorem textAt (text : List Char) : HasLines fun depth => Code.textAt depth text := by
  refine ⟨Text.splitOn '\n' text, ?_, fun _ => rfl⟩
  intro line hline hmem
  exact (Text.ne_and_mem_of_mem_splitOn hline hmem).1 rfl

theorem flatMap {α : Type} {texts : α → Nat → List Char} (as : List α)
    (h : ∀ a, HasLines (texts a)) : HasLines fun depth => as.flatMap (texts · depth) := by
  induction as with
  | nil => exact nil
  | cons a as ih => exact (h a).append ih

theorem docAt (text : List Char) : HasLines fun depth => Code.docAt depth text := by
  by_cases h : (Text.escapeCommentChars text).contains '\n'
  · simp only [Code.docAt, h, if_true]
    exact ((textAt _).append (flatMap _ fun line => textAt (" * ".toList ++ line))).append
      (textAt _)
  · simp only [Code.docAt, h]
    exact textAt _

theorem charsOfAll (h : ∀ fragment ∈ body, HasLines fun depth => fragment.chars depth) :
    HasLines fun depth => Code.charsOfAll depth body := by
  induction body with
  | nil => exact nil
  | cons fragment body ih =>
    obtain ⟨hfragment, hbody⟩ := List.forall_mem_cons.1 h
    exact hfragment.append (ih hbody)

/-- A fragment without raw text is lines. -/
theorem chars {fragment : Fragment} (h : fragment.Rawless) :
    HasLines fun depth => fragment.chars depth := by
  induction h with
  | line text => exact textAt _
  | doc text => exact docAt _
  | indent _ ih => exact (charsOfAll ih).deeper
  | block header _ close ih =>
    have hbody := (textAt header.toList).append (charsOfAll ih).deeper
    cases close with
    | none => exact hbody.append nil
    | some close => exact hbody.append (textAt close.toList)

end HasLines

/-! ## What is added at a depth -/

/-- Indentation is compositional.  Adding a fragment to a buffer adds the text that the fragment has
at the depth of the buffer at the end, and leaves the depth.  Without raw text in the fragment, its
text at a depth is its text at the left margin with two blanks for each level in front of every line
that holds something. -/
theorem push_compositional (fragment : Fragment) :
    (∀ b : Buffer, (b.push fragment).text = b.text ++ String.ofList (fragment.chars b.depth) ∧
      (b.push fragment).depth = b.depth) ∧
    (fragment.Rawless →
      ∀ depth, fragment.chars depth = indented (2 * depth) (fragment.chars 0)) := by
  refine ⟨fun b => ?_, fun hraw depth => ?_⟩
  · rw [Buffer.push_eq]
    exact ⟨rfl, rfl⟩
  · obtain ⟨lines, hnewline, hchars⟩ := HasLines.chars hraw
    calc fragment.chars depth
      _ = lines.flatMap (lineAt depth) := hchars depth
      _ = indented (2 * depth) (lines.flatMap (lineAt 0)) := flatMap_lineAt hnewline depth
      _ = indented (2 * depth) (fragment.chars 0) := congrArg _ (hchars 0).symm

example : (Fragment.block "switch (" [.doc "a\nb", .line "c\n\nd"] (some ")")).chars 1 =
    indented 2 "switch (\n  /**\n   * a\n   * b\n   */\n  c\n\n  d\n)\n".toList := by
  decide +kernel

end Code

end SwaggerClient
