/-!
# Strings of a configuration text

Strings stand between quotes of two kinds, once or three times.  Between double
quotes a backslash begins an escape; between single quotes every character stands
for itself.  Only a string between triple quotes may go over several lines.
-/

namespace SwaggerClient.Toml

/-- Whether a character may not stand in a text as it is. -/
def isControl (c : Char) : Bool :=
  (c.val < 32 && c != '\t') || c.val == 127

/-- The rest of a text behind a line end, if one comes next. -/
def lineEnd? : List Char → Option (List Char)
  | '\n' :: cs => some cs
  | '\r' :: '\n' :: cs => some cs
  | _ => none

/-- Whether a character is a blank. -/
def isBlank (c : Char) : Bool :=
  c == ' ' || c == '\t'

/-- A text without blanks in front. -/
def skipBlanks (cs : List Char) : List Char :=
  cs.dropWhile isBlank

/-- The value of a hexadecimal digit. -/
def hexDigit? (c : Char) : Option Nat :=
  if c.isDigit then some (c.toNat - '0'.toNat)
  else if 'a' ≤ c ∧ c ≤ 'f' then some (c.toNat - 'a'.toNat + 10)
  else if 'A' ≤ c ∧ c ≤ 'F' then some (c.toNat - 'A'.toNat + 10)
  else none

/-- A character given by a number of hexadecimal digits. -/
def hexEscape (count : Nat) (cs : List Char) : Option (Char × List Char) := do
  let digits ← (cs.take count).mapM hexDigit?
  let code := digits.foldl (fun n d => n * 16 + d) 0
  if digits.length = count ∧ code.isValidChar then some (.ofNat code, cs.drop count) else none

/-- The character of an escape, behind its backslash. -/
def readEscape : List Char → Option (Char × List Char)
  | 'b' :: cs => some ('\x08', cs)
  | 't' :: cs => some ('\t', cs)
  | 'n' :: cs => some ('\n', cs)
  | 'f' :: cs => some ('\x0c', cs)
  | 'r' :: cs => some ('\r', cs)
  | 'e' :: cs => some ('\x1b', cs)
  | '"' :: cs => some ('"', cs)
  | '\\' :: cs => some ('\\', cs)
  | 'x' :: cs => hexEscape 2 cs
  | 'u' :: cs => hexEscape 4 cs
  | 'U' :: cs => hexEscape 8 cs
  | _ => none

/-- The characters of a string on one line up to its closing quote. -/
def readLineString (quote : Char) : Nat → List Char → Option (List Char × List Char)
  | 0, _ => none
  | _, [] => none
  | steps + 1, c :: cs =>
    if c == quote then some ([], cs)
    else if isControl c then none
    else if c == '\\' && quote == '"' then do
      let (char, cs) ← readEscape cs
      let (chars, cs) ← readLineString quote steps cs
      return (char :: chars, cs)
    else do
      let (chars, cs) ← readLineString quote steps cs
      return (c :: chars, cs)

/-- A text without the blanks and line ends in front. -/
def skipLineBlanks (cs : List Char) : List Char :=
  cs.dropWhile fun c => isBlank c || c == '\n' || c == '\r'

/-- The characters of a string over several lines up to its closing quotes.  Up to
two quotes may stand right in front of the closing ones, and a backslash at the end
of a line takes the line end and all blanks behind it away. -/
def readBlockString (quote : Char) : Nat → List Char → Option (List Char × List Char)
  | 0, _ => none
  | _, [] => none
  | steps + 1, c :: cs =>
    if c == quote then
      let quotes := (c :: cs).takeWhile (· == quote)
      let rest := (c :: cs).drop quotes.length
      if quotes.length < 3 then do
        let (chars, rest) ← readBlockString quote steps rest
        return (quotes ++ chars, rest)
      else if quotes.length ≤ 5 then some (quotes.drop 3, rest)
      else none
    else if c == '\\' && quote == '"' then
      match lineEnd? (skipBlanks cs) with
      | some rest => readBlockString quote steps (skipLineBlanks rest)
      | none => do
        let (char, rest) ← readEscape cs
        let (chars, rest) ← readBlockString quote steps rest
        return (char :: chars, rest)
    else if isControl c && (lineEnd? (c :: cs)).isNone then none
    else do
      let (chars, rest) ← readBlockString quote steps cs
      return (c :: chars, rest)

/-- The string at a quote. -/
def readString (cs : List Char) : Option (String × List Char) := do
  let (chars, cs) ←
    match cs with
    | '"' :: '"' :: '"' :: cs => readBlockString '"' cs.length ((lineEnd? cs).getD cs)
    | '\'' :: '\'' :: '\'' :: cs => readBlockString '\'' cs.length ((lineEnd? cs).getD cs)
    | '"' :: cs => readLineString '"' cs.length cs
    | '\'' :: cs => readLineString '\'' cs.length cs
    | _ => none
  return (.ofList chars, cs)

end SwaggerClient.Toml
