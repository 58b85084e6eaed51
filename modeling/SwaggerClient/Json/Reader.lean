import SwaggerClient.Json.Tree

/-!
# Reading a JSON text

A text is read from left to right into a tree.  Where the text goes wrong the
tree ends in the faults that are met there, one for a reader that takes the value
and one for a reader that skips it, and nothing behind that place is looked at.
-/

namespace SwaggerClient

/-- A place in a text: what is not read yet, and how many bytes lie before. -/
structure Cursor where
  rest : List Char
  offset : Nat

namespace Cursor

variable (c : Cursor)

/-- The place behind the next byte, or the end of the text. -/
def peek : Nat :=
  if c.rest.isEmpty then c.offset else c.offset + 1

/-- Whether a character may stand between the parts of a text. -/
def isBlank (c : Char) : Bool :=
  c == ' ' || c == '\n' || c == '\t' || c == '\r'

/-- The place behind some blanks. -/
def skipBlanks : Cursor :=
  let blanks := c.rest.takeWhile isBlank
  ⟨c.rest.drop blanks.length, c.offset + blanks.length⟩

/-- The place behind the next character, which is one byte long. -/
def next : Cursor :=
  ⟨c.rest.tail, c.offset + 1⟩

/-- The place behind a closing bracket, if it comes next. -/
def pastCloser (closer : Char) : Nat :=
  if c.rest.head? = some closer then c.offset + 1 else c.offset

/-- The number of bytes of a list of characters. -/
def byteLength (cs : List Char) : Nat :=
  cs.foldl (fun bytes c => bytes + c.utf8Size) 0

end Cursor

/-! ## Strings -/

/-- The value of a hexadecimal digit. -/
def hexValue? (c : Char) : Option Nat :=
  if '0' ≤ c ∧ c ≤ '9' then some (c.toNat - '0'.toNat)
  else if 'a' ≤ c ∧ c ≤ 'f' then some (c.toNat - 'a'.toNat + 10)
  else if 'A' ≤ c ∧ c ≤ 'F' then some (c.toNat - 'A'.toNat + 10)
  else none

/-- Four hexadecimal digits. -/
def readHex (c : Cursor) : Except Fault (Nat × Cursor) :=
  let digits := c.rest.take 4
  match digits.mapM hexValue? with
  | some [p, q, r, s] => .ok (((p * 16 + q) * 16 + r) * 16 + s, ⟨c.rest.drop 4, c.offset + 4⟩)
  | _ =>
    let bytes := Cursor.byteLength digits
    if bytes < 4 then .error (.placed .endInString (c.offset + bytes))
    else .error (.placed .invalidEscape (c.offset + 4))

/-- The character that a letter behind a backslash stands for. -/
def escapeLetter? : Char → Option Char
  | '"' => some '"'
  | '\\' => some '\\'
  | '/' => some '/'
  | 'b' => some '\x08'
  | 'f' => some '\x0c'
  | 'n' => some '\n'
  | 'r' => some '\r'
  | 't' => some '\t'
  | _ => none

/-- The second half of a character that is written as two escapes. -/
def readTrail (lead : Nat) (c : Cursor) : Except Fault (Char × Cursor) :=
  match c.rest with
  | [] => .error (.placed .endInString c.offset)
  | '\\' :: rest =>
    match rest with
    | [] => .error (.placed .endInString (c.offset + 1))
    | 'u' :: _ => do
      let (trail, c) ← readHex c.next.next
      if trail < 0xDC00 || 0xDFFF < trail then .error (.placed .loneSurrogate c.offset)
      else .ok (.ofNat ((lead - 0xD800) * 0x400 + (trail - 0xDC00) + 0x10000), c)
    | _ => .error (.placed .unexpectedEscapeEnd (c.offset + 2))
  | _ => .error (.placed .unexpectedEscapeEnd (c.offset + 1))

/-- The character of an escape, behind its backslash. -/
def readEscape (c : Cursor) : Except Fault (Char × Cursor) :=
  match c.rest with
  | [] => .error (.placed .endInString c.offset)
  | 'u' :: _ => do
    let (code, c) ← readHex c.next
    if 0xDC00 ≤ code && code ≤ 0xDFFF then .error (.placed .loneSurrogate c.offset)
    else if code < 0xD800 || 0xDBFF < code then .ok (.ofNat code, c)
    else readTrail code c
  | letter :: _ =>
    match escapeLetter? letter with
    | some char => .ok (char, c.next)
    | none => .error (.placed .invalidEscape (c.offset + 1))

/-- Passes over an escape, behind its backslash. -/
def skipEscape (c : Cursor) : Except Fault Cursor :=
  match c.rest with
  | [] => .error (.placed .endInString c.offset)
  | 'u' :: _ => (readHex c.next).map Prod.snd
  | letter :: _ =>
    if (escapeLetter? letter).isSome then .ok c.next
    else .error (.placed .invalidEscape (c.offset + 1))

/-- The characters of a string up to its closing quote.  A control character is read
before it is refused. -/
def takeStringChars : Nat → Cursor → Except Fault (List Char × Cursor)
  | 0, c => .error (.placed .endInString c.offset)
  | steps + 1, c =>
    match c.rest with
    | [] => .error (.placed .endInString c.offset)
    | '"' :: _ => .ok ([], c.next)
    | '\\' :: _ => do
      let (char, c) ← readEscape c.next
      let (chars, c) ← takeStringChars steps c
      return (char :: chars, c)
    | char :: rest =>
      if char.val < 32 then .error (.placed .controlCharacter (c.offset + 1))
      else do
        let (chars, c) ← takeStringChars steps ⟨rest, c.offset + char.utf8Size⟩
        return (char :: chars, c)

/-- Passes over the characters of a string and its closing quote.  A control character is
refused in front of it. -/
def skipStringChars : Nat → Cursor → Except Fault Cursor
  | 0, c => .error (.placed .endInString c.offset)
  | steps + 1, c =>
    match c.rest with
    | [] => .error (.placed .endInString c.offset)
    | '"' :: _ => .ok c.next
    | '\\' :: _ => do skipStringChars steps (← skipEscape c.next)
    | char :: rest =>
      if char.val < 32 then .error (.placed .controlCharacter c.offset)
      else skipStringChars steps ⟨rest, c.offset + char.utf8Size⟩

/-- The string at a quote. -/
def takeString (steps : Nat) (c : Cursor) : Except Fault String :=
  (takeStringChars steps c.next).map fun (chars, _) => .ofList chars

/-- The place behind the string at a quote. -/
def skipString (steps : Nat) (c : Cursor) : Except Fault Cursor :=
  skipStringChars steps c.next

/-! ## Numbers -/

/-- Faults of one kind for taking and for skipping. -/
abbrev Faults := Fault × Fault

/-- The same fault for taking and for skipping. -/
def bothFaults (reason : Reason) (offset : Nat) : Faults :=
  (.placed reason offset, .placed reason offset)

/-- The fault at the end of a text inside a number. -/
def numberEnd (offset : Nat) : Faults :=
  (.placed .endInValue offset, .placed .invalidNumber offset)

/-- The digits that come next. -/
def readDigits (c : Cursor) : List Nat × Cursor :=
  let digits := c.rest.takeWhile Char.isDigit
  (digits.map fun d => d.toNat - '0'.toNat,
    ⟨c.rest.drop digits.length, c.offset + digits.length⟩)

/-- The digits in front of the point; a zero in front stands alone. -/
def readWhole (c : Cursor) : Except Faults (List Nat × Cursor) :=
  match c.rest with
  | [] => .error (numberEnd c.offset)
  | '0' :: rest =>
    if (rest.head?.map Char.isDigit).getD false then
      .error (bothFaults .invalidNumber c.next.peek)
    else .ok ([0], c.next)
  | char :: _ =>
    if char.isDigit then .ok (readDigits c)
    else .error (bothFaults .invalidNumber (c.offset + 1))

/-- The point and the digits behind it, if there is a point. -/
def readFraction (c : Cursor) : Except Faults (Option (List Nat) × Cursor) :=
  if c.rest.head? = some '.' then
    match readDigits c.next with
    | ([], c) =>
      if c.rest.isEmpty then .error (numberEnd c.offset)
      else .error (bothFaults .invalidNumber c.peek)
    | (digits, c) => .ok (some digits, c)
  else .ok (none, c)

/-- The exponent, if there is one. -/
def readExponent (c : Cursor) : Except Faults (Option (Bool × List Nat) × Cursor) :=
  if c.rest.head? = some 'e' || c.rest.head? = some 'E' then
    let c := c.next
    let sign := c.rest.head?
    let c := if sign = some '+' || sign = some '-' then c.next else c
    match readDigits c with
    | ([], c) =>
      if c.rest.isEmpty then .error (numberEnd c.offset)
      else .error (bothFaults .invalidNumber (c.offset + 1))
    | (digits, c) => .ok (some (sign = some '-', digits), c)
  else .ok (none, c)

/-- The number at a digit or a minus sign. -/
def readNumeral (c : Cursor) : Except Faults (Numeral × Cursor) := do
  let negative := c.rest.head? = some '-'
  let (whole, c) ← readWhole (if negative then c.next else c)
  let (fraction, c) ← readFraction c
  let (exponent, c) ← readExponent c
  return (⟨negative, whole, fraction, exponent⟩, c)

/-- A number that is taken; the place behind it is given. -/
def numberScalar (n : Numeral) (stop : Nat) : Except Fault Scalar :=
  match n.value with
  | .ok value => .ok (.number value)
  | .error none => .error (.placed .numberOutOfRange stop)
  | .error (some read) =>
    let digits := ((n.exponent.map Prod.snd).getD []).length
    .error (.placed .numberOutOfRange (stop - digits + read))

/-! ## Values -/

/-- The rest of a word that must come next. -/
def readWord : List Char → Cursor → Except Fault Cursor
  | [], c => .ok c
  | letter :: letters, c =>
    match c.rest with
    | [] => .error (.placed .endInValue c.offset)
    | char :: _ =>
      if char = letter then readWord letters c.next
      else .error (.placed .expectedIdent (c.offset + 1))

/-- A leaf for faults, with a place behind it that nothing asks for. -/
def faultLeaf (faults : Faults) (c : Cursor) : Tree × Cursor :=
  (.leaf c.offset c.offset (.error faults.1) (some faults.2), c)

/-- The leaf of a word that stands for a scalar. -/
def wordLeaf (word : String) (scalar : Scalar) (c : Cursor) : Tree × Cursor :=
  match readWord word.toList c with
  | .ok after => (.leaf c.offset after.offset (.ok scalar) none, after)
  | .error fault => faultLeaf (fault, fault) c

/-- The leaf of a number. -/
def numberLeaf (c : Cursor) : Tree × Cursor :=
  match readNumeral c with
  | .ok (n, after) => (.leaf c.offset after.offset (numberScalar n after.offset) none, after)
  | .error faults => faultLeaf faults c

/-- The leaf of a string. -/
def stringLeaf (steps : Nat) (c : Cursor) : Tree × Cursor :=
  match skipString steps c with
  | .ok after => (.leaf c.offset after.offset ((takeString steps c).map .string) none, after)
  | .error fault =>
    (.leaf c.offset c.offset ((takeString steps c).map .string) (some fault), c)

mutual

/-- The value at a place.  A bracket takes three steps and a next part one, so there
are always more steps left than characters. -/
def readValue : Nat → Cursor → Tree × Cursor
  | 0, c => faultLeaf (bothFaults .endInValue c.offset) c
  | steps + 1, c =>
    match c.rest with
    | [] => faultLeaf (bothFaults .endInValue c.offset) c
    | 'n' :: _ => wordLeaf "null" .null c
    | 't' :: _ => wordLeaf "true" (.bool true) c
    | 'f' :: _ => wordLeaf "false" (.bool false) c
    | '"' :: _ => stringLeaf steps c
    | '[' :: _ =>
      let (items, after) := readItems steps c.next.skipBlanks
      (.array c.offset items, after)
    | '{' :: _ =>
      let (members, after) := readMembers steps c.next.skipBlanks
      (.object c.offset members, after)
    | char :: _ =>
      if char.isDigit || char == '-' then numberLeaf c
      else faultLeaf (bothFaults .expectedValue c.peek) c

/-- The items of an array from its first one on. -/
def readItems : Nat → Cursor → Items × Cursor
  | 0, c => (.broken (.placed .endInList c.offset) (.placed .endInList c.offset), c)
  | steps + 1, c =>
    match c.rest with
    | [] => (.broken (.placed .endInList c.offset) (.placed .endInList c.offset), c)
    | ']' :: _ => (.closed (c.offset + 1), c.next)
    | _ => readItem steps c

/-- An item and those behind it. -/
def readItem : Nat → Cursor → Items × Cursor
  | 0, c => (.broken (.placed .endInList c.offset) (.placed .endInList c.offset), c)
  | steps + 1, c =>
    let (value, c) := readValue steps c
    let c := c.skipBlanks
    match c.rest with
    | ']' :: _ => (.item value (c.offset + 1) (.closed (c.offset + 1)), c.next)
    | ',' :: _ =>
      let c := c.next.skipBlanks
      match c.rest with
      | [] =>
        (.item value c.offset
          (.broken (.placed .endInValue c.offset) (.placed .endInValue c.offset)), c)
      | ']' :: _ =>
        (.item value c.offset
          (.broken (.placed .trailingComma c.peek) (.placed .expectedValue c.peek)), c)
      | _ =>
        let (rest, after) := readItem steps c
        (.item value c.offset rest, after)
    | [] =>
      (.item value c.offset (.broken (.placed .endInList c.offset) (.placed .endInList c.offset)),
        c)
    | _ =>
      (.item value c.offset
        (.broken (.placed .expectedListEnd c.peek) (.placed .expectedListEnd c.peek)), c)

/-- The members of an object from its first one on. -/
def readMembers : Nat → Cursor → Members × Cursor
  | 0, c => (.broken (.placed .endInObject c.offset) (.placed .endInObject c.offset), c)
  | steps + 1, c =>
    match c.rest with
    | [] => (.broken (.placed .endInObject c.offset) (.placed .endInObject c.offset), c)
    | '}' :: _ => (.closed (c.offset + 1), c.next)
    | '"' :: _ => readMember steps c
    | _ => (.broken (.placed .keyNotString c.peek) (.placed .keyNotString c.peek), c)

/-- A member and those behind it. -/
def readMember : Nat → Cursor → Members × Cursor
  | 0, c => (.broken (.placed .endInObject c.offset) (.placed .endInObject c.offset), c)
  | steps + 1, c =>
    let key := takeString steps c
    match skipString steps c, key with
    | .error skipped, .error taken => (.broken taken skipped, c)
    | .error skipped, .ok _ => (.broken skipped skipped, c)
    | .ok c, key =>
      let keyStop := c.offset
      let c := c.skipBlanks
      let keySettled := c.pastCloser '}'
      match c.rest with
      | ':' :: _ =>
        let (value, c) := readValue steps c.next.skipBlanks
        let c := c.skipBlanks
        let settled := c.pastCloser '}'
        match c.rest with
        | '}' :: _ => (.member key keyStop keySettled value settled (.closed settled), c.next)
        | ',' :: _ =>
          let c := c.next.skipBlanks
          match c.rest with
          | '"' :: _ =>
            let (rest, after) := readMember steps c
            (.member key keyStop keySettled value settled rest, after)
          | [] =>
            (.member key keyStop keySettled value settled
              (.broken (.placed .endInValue c.offset) (.placed .endInObject c.offset)), c)
          | '}' :: _ =>
            (.member key keyStop keySettled value settled
              (.broken (.placed .trailingComma c.peek) (.placed .keyNotString c.peek)), c)
          | _ =>
            (.member key keyStop keySettled value settled
              (.broken (.placed .keyNotString c.peek) (.placed .keyNotString c.peek)), c)
        | [] =>
          (.member key keyStop keySettled value settled
            (.broken (.placed .endInObject c.offset) (.placed .endInObject c.offset)), c)
        | _ =>
          (.member key keyStop keySettled value settled
            (.broken (.placed .expectedObjectEnd c.peek) (.placed .expectedObjectEnd c.peek)), c)
      | rest =>
        let reason := if rest.isEmpty then Reason.endInObject else .expectedColon
        let (value, _) := faultLeaf (bothFaults reason c.peek) c
        (.member key keyStop keySettled value c.offset
          (.broken (.placed reason c.peek) (.placed reason c.peek)), c)

end

/-- A text as a tree, and the fault of what stands behind its value. -/
def readTree (text : String) : Tree × Option Fault :=
  let chars := text.toList
  let (tree, c) := readValue (3 * chars.length + 3) (Cursor.skipBlanks ⟨chars, 0⟩)
  let c := c.skipBlanks
  (tree, if c.rest.isEmpty then none else some (.placed .trailingCharacters c.peek))

end SwaggerClient
