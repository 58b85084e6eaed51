import SwaggerClient.Text.Split
import SwaggerClient.Text.Uppercase

/-!
# Capitals

Capitalising a word, and joining words into one by their capitals.
-/

namespace SwaggerClient.Text

/-- A word with its first character in upper case and the rest as written. -/
def capitalizeChars : List Char → List Char
  | [] => []
  | c :: cs => upperChars c ++ cs

/-- The words between underscores, capitalised and written without a gap. -/
def pascalChars (cs : List Char) : List Char :=
  (splitOn '_' cs).flatMap capitalizeChars

/-- A string with its first character in upper case. -/
def capitalize (s : String) : String :=
  String.ofList (capitalizeChars s.toList)

/-- The words of a string, parted by underscores, as one capitalised word. -/
def pascalCase (s : String) : String :=
  String.ofList (pascalChars s.toList)

end SwaggerClient.Text
