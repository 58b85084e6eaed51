import SwaggerClient.Toml.Value

/-!
# Words of a configuration text

Truth values, numbers and dates are written without quotes.
-/

namespace SwaggerClient.Toml

/-- The characters that end a word without quotes: blanks, line ends and the marks
between values. -/
def wordEnds : List Char :=
  ['=', ',', '[', ']', '{', '}', '#', ' ', '\t', '\n', '\r']

/-- Whether a word without quotes may hold a character. -/
def isWordChar (c : Char) : Bool :=
  !wordEnds.contains c

/-! ## Numbers

Nothing here asks for the value of a number, so only its form is looked at. -/

/-- Whether a character is a digit of base sixteen. -/
def isHexDigit (c : Char) : Bool :=
  c.isDigit || ('a' ≤ c && c ≤ 'f') || ('A' ≤ c && c ≤ 'F')

/-- Whether each underscore stands between two digits, where `joins` says whether one
may come first. -/
def underscoresJoin (isDigit : Char → Bool) (joins : Bool) : List Char → Bool
  | [] => true
  | '_' :: cs => joins && (cs.head?.map isDigit).getD false && underscoresJoin isDigit false cs
  | c :: cs => underscoresJoin isDigit (isDigit c) cs

/-- Whether a text is made of digits and underscores. -/
def isDigits (isDigit : Char → Bool) (cs : List Char) : Bool :=
  cs.all fun c => isDigit c || c == '_'

/-- Whether a text has a sign in front, and the text without it. -/
def cutSign : List Char → Bool × List Char
  | '+' :: cs => (true, cs)
  | '-' :: cs => (true, cs)
  | cs => (false, cs)

/-- Splits a text at the first character with a property, and drops it. -/
def cutAt (p : Char → Bool) (cs : List Char) : List Char × Option (List Char) :=
  let front := cs.takeWhile fun c => !p c
  match cs.drop front.length with
  | [] => (front, none)
  | _ :: rest => (front, some rest)

/-- The digits behind the mark of a base; there may be none. -/
def isMarked (isDigit : Char → Bool) (cs : List Char) : Bool :=
  isDigits isDigit cs && underscoresJoin isDigit false cs

/-- A whole number in base ten; a zero in front stands alone.  From the first underscore
on, only the neighbours of underscores are looked at, and digits of base sixteen pass
there.  A sign joins an underscore as a digit does. -/
def isDecimal (cs : List Char) : Bool :=
  let (signed, cs) := cutSign cs
  match cs.dropWhile Char.isDigit with
  | [] => cs == ['0'] || (!cs.isEmpty && cs.head? != some '0')
  | '_' :: rest =>
    cs.head? != some '0' && !rest.any ['.', 'e', 'E'].contains
      && underscoresJoin isHexDigit signed cs
  | _ => false

/-- A whole number, in base ten or in another base behind its mark. -/
def isInteger (cs : List Char) : Bool :=
  match cs with
  | '0' :: 'x' :: digits => isMarked isHexDigit digits
  | '0' :: 'o' :: digits => isMarked (fun c => '0' ≤ c && c ≤ '7') digits
  | '0' :: 'b' :: digits => isMarked (fun c => c == '0' || c == '1') digits
  | cs => isDecimal cs

/-- Whether a part of a number holds digits: at least one, and underscores. -/
def hasDigits (cs : List Char) : Bool :=
  isDigits Char.isDigit cs && cs.any Char.isDigit

/-- A number with a fraction or an exponent, or one that is no number. -/
def isFloat (cs : List Char) : Bool :=
  let (signed, cs) := cutSign cs
  if cs == "inf".toList || cs == "nan".toList then true
  else
    let (mantissa, exponent) := cutAt ['e', 'E'].contains cs
    let (whole, fraction) := cutAt (· == '.') mantissa
    hasDigits whole && (whole.head? != some '0' || whole.length == 1)
      && (fraction.map hasDigits).getD true
      && (exponent.map fun e => hasDigits (cutSign e).2).getD true
      && (fraction.isSome || exponent.isSome)
      && underscoresJoin Char.isDigit signed cs

/-! ## Dates and times -/

/-- The number that digits spell. -/
def digitsValue (cs : List Char) : Nat :=
  cs.foldl (fun n c => n * 10 + (c.toNat - '0'.toNat)) 0

/-- Reads a number of digits with a value in a range. -/
def readField (count low high : Nat) (cs : List Char) : Option (Nat × List Char) :=
  let digits := cs.take count
  let value := digitsValue digits
  if digits.length = count ∧ digits.all Char.isDigit ∧ low ≤ value ∧ value ≤ high then
    some (value, cs.drop count)
  else none

/-- Reads one character. -/
def readChar (p : Char → Bool) : List Char → Option (List Char)
  | c :: cs => if p c then some cs else none
  | [] => none

/-- Whether a year has a 29th of February. -/
def isLeapYear (year : Nat) : Bool :=
  year % 4 == 0 && (year % 100 != 0 || year % 400 == 0)

/-- The number of days of a month. -/
def daysOfMonth (year month : Nat) : Nat :=
  match month with
  | 2 => if isLeapYear year then 29 else 28
  | 4 | 6 | 9 | 11 => 30
  | _ => 31

/-- Reads a day of the calendar. -/
def readDate (cs : List Char) : Option (List Char) := do
  let (year, cs) ← readField 4 0 9999 cs
  let cs ← readChar (· == '-') cs
  let (month, cs) ← readField 2 1 12 cs
  let cs ← readChar (· == '-') cs
  let (_, cs) ← readField 2 1 (daysOfMonth year month) cs
  return cs

/-- Reads the seconds of a time with their fraction, if they are given. -/
def readSeconds (cs : List Char) : Option (List Char) :=
  match cs with
  | ':' :: cs => do
    let (_, cs) ← readField 2 0 60 cs
    match cs with
    | '.' :: cs =>
      let digits := cs.takeWhile Char.isDigit
      if digits.isEmpty then none else some (cs.drop digits.length)
    | cs => some cs
  | cs => some cs

/-- Reads hours and minutes. -/
def readClock (cs : List Char) : Option (List Char) := do
  let (_, cs) ← readField 2 0 23 cs
  let cs ← readChar (· == ':') cs
  let (_, cs) ← readField 2 0 59 cs
  return cs

/-- Reads a time of day. -/
def readTime (cs : List Char) : Option (List Char) := do
  readSeconds (← readClock cs)

/-- Reads the distance from universal time, if it is given. -/
def readZone (cs : List Char) : Option (List Char) :=
  match cs with
  | [] => some []
  | c :: cs =>
    if c == 'Z' || c == 'z' then some cs
    else if c == '+' || c == '-' then readClock cs
    else some (c :: cs)

/-- A date, a time, or both with or without a zone. -/
def isMoment (cs : List Char) : Bool :=
  readTime cs == some [] ||
    match readDate cs with
    | none => false
    | some [] => true
    | some (c :: cs) =>
      (c == 'T' || c == 't' || c == ' ') && ((readTime cs).bind readZone) == some []

/-! ## Words -/

/-- The value of a word. -/
def wordValue? (cs : List Char) : Option Value :=
  if cs == "true".toList then some (.boolean true)
  else if cs == "false".toList then some (.boolean false)
  else if isInteger cs || isFloat cs || isMoment cs then some (.other (.ofList cs))
  else none

end SwaggerClient.Toml
