/-!
# Quoted literals

A text between single quotes.  A quote or a backslash inside is preceded by a
backslash; every other character stands for itself.
-/

namespace SwaggerClient.Text

/-- The spelling of one character between single quotes. -/
def quotedChar (c : Char) : List Char :=
  if c = '\\' ∨ c = '\'' then ['\\', c] else [c]

/-- The characters of a text as they stand between the quotes. -/
def quotedChars (cs : List Char) : List Char :=
  cs.flatMap quotedChar

/-- A string as a literal in single quotes. -/
def quote (s : String) : String :=
  String.ofList ('\'' :: quotedChars s.toList ++ ['\''])

end SwaggerClient.Text
