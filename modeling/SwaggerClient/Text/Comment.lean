/-!
# Text inside a block comment

A block comment ends at its first `*/`.  Text is made safe by writing each
`*/` in it as `*\/`.
-/

namespace SwaggerClient.Text

/-- The characters of a text with a backslash put inside every `*/`. -/
def escapeCommentChars : List Char → List Char
  | [] => []
  | '*' :: '/' :: cs => '*' :: '\\' :: '/' :: escapeCommentChars cs
  | c :: cs => c :: escapeCommentChars cs

/-- A string that may stand inside a block comment. -/
def escapeComment (s : String) : String :=
  String.ofList (escapeCommentChars s.toList)

end SwaggerClient.Text
