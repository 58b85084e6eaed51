import SwaggerClient.Code.Buffer
import SwaggerClient.Proofs.Code.Fragment
import SwaggerClient.Proofs.Text.Comment
import SwaggerClient.Proofs.Text.Lines
import SwaggerClient.Schema.Text

/-!
# Documentation stays inside its comment

Whatever text is documented with, the comment that is written ends where it was meant to end.  A
text on one line has blanks around it, and a text on several lines has a blank in front of each line
and a line feed behind it, so that no end of a comment arises beside those that are escaped.
-/

namespace SwaggerClient

namespace Code

variable {depth : Nat} {cs tail : List Char}

/-- Whether a text is one documentation comment on lines of its own: it opens behind the blanks of
its depth, and it ends in front of its final line feed and nowhere else. -/
structure IsDocComment (depth : Nat) (cs : List Char) : Prop where
  shape : ∃ middle, cs = blanks depth ++ "/**".toList ++ middle ++ "*/\n".toList
  ends : Text.EndsOnly cs

/-- A line that is not empty, written at a depth. -/
theorem textAt_of_ne (h : '\n' ∉ cs) (hne : cs ≠ []) :
    textAt depth cs = blanks depth ++ cs ++ ['\n'] := by
  simp [textAt_line h, lineAt, hne]

theorem endsOnly_blanks (h : Text.EndsOnly cs) (depth : Nat) :
    Text.EndsOnly (blanks depth ++ cs) := by
  rw [blanks]
  induction 2 * depth with
  | zero => exact h
  | succ n ih => exact ih.cons (by decide)

/-- A comment opens with no end of one. -/
theorem endsOnly_open (h : Text.EndsOnly cs) {c : Char} (hstar : c ≠ '*') (hslash : c ≠ '/')
    (depth : Nat) : Text.EndsOnly (blanks depth ++ "/**".toList ++ c :: cs) := by
  rw [List.append_assoc]
  refine endsOnly_blanks (Text.EndsOnly.append ?_ hstar hslash h) depth
  decide

/-! ## One line -/

/-- A comment on one line. -/
theorem isDocComment_line (h : ¬ Text.commentEnd <:+: cs) (depth : Nat) :
    IsDocComment depth (blanks depth ++ ("/** ".toList ++ cs ++ " */".toList) ++ ['\n']) where
  shape := ⟨' ' :: cs ++ [' '], by simp⟩
  ends := by
    have hend : Text.EndsOnly (cs ++ ' ' :: ['*', '/', '\n']) :=
      .append h (by decide) (by decide) .close
    simpa using endsOnly_open hend (by decide) (by decide) depth

/-! ## Several lines -/

/-- A line of a comment holds no end of one. -/
theorem endsOnly_starred {line : List Char} (h : ¬ Text.commentEnd <:+: line)
    (ht : Text.EndsOnly tail) (depth : Nat) :
    Text.EndsOnly (blanks depth ++ (" * ".toList ++ line) ++ ['\n'] ++ tail) := by
  have hline : Text.EndsOnly (line ++ '\n' :: tail) := .append h (by decide) (by decide) ht
  have hstar : Text.EndsOnly (['*'] ++ ' ' :: (line ++ '\n' :: tail)) :=
    .append (by decide) (by decide) (by decide) hline
  have hblank : Text.EndsOnly (' ' :: '*' :: ' ' :: (line ++ '\n' :: tail)) :=
    hstar.cons (by decide)
  simpa using endsOnly_blanks hblank depth

theorem endsOnly_lines {lines : List (List Char)}
    (h : ∀ line ∈ lines, '\n' ∉ line ∧ ¬ Text.commentEnd <:+: line) (ht : Text.EndsOnly tail)
    (depth : Nat) :
    Text.EndsOnly (lines.flatMap (fun line => textAt depth (" * ".toList ++ line)) ++ tail) := by
  induction lines with
  | nil => exact ht
  | cons line lines ih =>
    obtain ⟨⟨hnewline, hend⟩, hlines⟩ := List.forall_mem_cons.1 h
    have htext : textAt depth (" * ".toList ++ line) =
        blanks depth ++ (" * ".toList ++ line) ++ ['\n'] :=
      textAt_of_ne (by simp [hnewline]) (by simp)
    rw [List.flatMap_cons, List.append_assoc, htext]
    exact endsOnly_starred hend (ih hlines) depth

/-- A comment with a star in front of every line. -/
theorem isDocComment_lines {lines : List (List Char)}
    (h : ∀ line ∈ lines, '\n' ∉ line ∧ ¬ Text.commentEnd <:+: line) (depth : Nat) :
    IsDocComment depth (textAt depth "/**".toList
      ++ lines.flatMap (fun line => textAt depth (" * ".toList ++ line))
      ++ textAt depth " */".toList) := by
  have hopen : textAt depth "/**".toList = blanks depth ++ "/**".toList ++ ['\n'] :=
    textAt_of_ne (by decide) (by decide)
  have hclose : textAt depth " */".toList = blanks depth ++ [' '] ++ "*/\n".toList := by
    rw [textAt_of_ne (by decide) (by decide)]
    simp
  have hend : Text.EndsOnly (blanks depth ++ ' ' :: ['*', '/', '\n']) :=
    endsOnly_blanks (Text.EndsOnly.close.cons (by decide)) depth
  rw [hopen, hclose]
  generalize hmiddle : lines.flatMap (fun line => textAt depth (" * ".toList ++ line)) = middle
  constructor
  · exact ⟨'\n' :: middle ++ blanks depth ++ [' '], by simp⟩
  · have hlines := endsOnly_lines h hend depth
    rw [hmiddle] at hlines
    simpa using endsOnly_open hlines (by decide) (by decide) depth

/-- A documentation comment at any depth is one. -/
theorem isDocComment_docAt (depth : Nat) (text : List Char) :
    IsDocComment depth (docAt depth text) := by
  have hsafe := Text.not_infix_escapeCommentChars text
  rw [docAt]
  by_cases hn : '\n' ∈ Text.escapeCommentChars text
  · have hlines : ∀ line ∈ Text.lineList (Text.escapeCommentChars text),
        '\n' ∉ line ∧ ¬ Text.commentEnd <:+: line := by
      intro line hline
      obtain ⟨hpart, hnewline⟩ := Text.infix_of_mem_lineList hline
      exact ⟨hnewline, fun hend => hsafe (hend.trans hpart)⟩
    simpa [hn] using isDocComment_lines hlines depth
  · have hline : '\n' ∉ "/** ".toList ++ Text.escapeCommentChars text ++ " */".toList := by
      simp [hn]
    rw [if_neg (by simpa using hn), textAt_of_ne hline (by simp)]
    exact isDocComment_line hsafe depth

theorem head?_docAt_zero (text : List Char) : (docAt 0 text).head? = some '/' := by
  obtain ⟨middle, hshape⟩ := (isDocComment_docAt 0 text).shape
  rw [hshape]
  rfl

/-! ## Where documentation is written -/

/-- The documentation in front of a key is a comment on a line of its own. -/
theorem exists_keyHead_some (doc key : String) :
    ∃ comment, IsDocComment 0 comment ∧ keyHead (some doc) key = comment ++ keyHead none key := by
  refine ⟨_, isDocComment_line (Text.not_infix_escapeCommentChars doc.toList) 0, ?_⟩
  have hsome : keyHead (some doc) key =
      "/** ".toList ++ Text.escapeCommentChars doc.toList ++ " */\n".toList ++ key.toList ++ [':'] :=
    rfl
  have hnone : keyHead none key = key.toList ++ [':'] := rfl
  rw [hsome, hnone]
  simp [blanks]

/-- Documentation stays inside its comment: in a buffer at any depth, above a member and above an
entry.  Each comment opens where it stands and ends in front of its final line feed, and nowhere
else.  The text inside is escaped, so that it holds no end of a comment; a text that holds none
stays as it is, also when it has been escaped before. -/
theorem docComments_end_once :
    (∀ (b : Buffer) (text : String), ∃ comment, IsDocComment b.depth comment ∧
      b.pushDoc text = b.append comment) ∧
    (∀ (m : Member (TypeExpr String)) (doc : String), ∃ comment, IsDocComment 0 comment ∧
      ({ m with doc := some doc }).render =
        String.ofList comment ++ ({ m with doc := none }).render) ∧
    (∀ (definitions : Definitions) (key : String) (node : Option SchemaNode) (description : String),
      key ≠ "" → description ≠ "" → ∃ comment, IsDocComment 0 comment ∧
        definitions.entryText key node description =
          String.ofList comment ++ definitions.entryText key node "") ∧
    ∀ text : String, ¬ Text.commentEnd <:+: (Text.escapeComment text).toList ∧
      (¬ Text.commentEnd <:+: text.toList → Text.escapeComment text = text) ∧
      Text.escapeComment (Text.escapeComment text) = Text.escapeComment text := by
  refine ⟨fun b text => ⟨_, isDocComment_docAt b.depth text.toList, rfl⟩, fun m doc => ?_,
    fun definitions key node description hkey hdescription => ?_, fun text => ?_⟩
  · obtain ⟨comment, hcomment, hhead⟩ := exists_keyHead_some doc (memberKey m.name m.optional)
    exact ⟨comment, hcomment, by simp [Member.render, hhead, String.ofList_append]⟩
  · obtain ⟨comment, hcomment, hhead⟩ := exists_keyHead_some description key
    refine ⟨comment, hcomment, ?_⟩
    simp [Definitions.entryText, memberDoc, hkey, hdescription, hhead, String.ofList_append]
  · have hescaped := Text.not_infix_escapeCommentChars text.toList
    have hself : ∀ s : String, ¬ Text.commentEnd <:+: s.toList → Text.escapeComment s = s :=
      fun s hs => by rw [Text.escapeComment, Text.escapeCommentChars_eq_self hs, String.ofList_toList]
    have htext : ¬ Text.commentEnd <:+: (Text.escapeComment text).toList := by
      rwa [Text.escapeComment, String.toList_ofList]
    exact ⟨htext, hself text, hself _ htext⟩

end Code

end SwaggerClient
