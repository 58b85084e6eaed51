/-!
# Places in a text

A place is a number of bytes, or a line and a column.  Lines count from one; the
column is the number of bytes on the line so far, so it is zero right behind a
line feed.
-/

namespace SwaggerClient

/-- A line and a column. -/
structure LineColumn where
  line : Nat
  column : Nat
  deriving DecidableEq, Repr

namespace LineColumn

/-- The byte that ends a line. -/
def lineFeed : UInt8 := 10

/-- The place behind the first bytes of a text. -/
def ofPrefixBytes (bytes : List UInt8) : LineColumn :=
  bytes.foldl
    (fun place byte => if byte = lineFeed then ⟨place.line + 1, 0⟩ else ⟨place.line, place.column + 1⟩)
    ⟨1, 0⟩

/-- The place behind a number of bytes of a text. -/
def ofOffset (bytes : List UInt8) (offset : Nat) : LineColumn :=
  ofPrefixBytes (bytes.take offset)

/-- The number of bytes in some first lines of a text, with their line feeds. -/
def lineStart : Nat → List UInt8 → Nat
  | 0, _ => 0
  | _ + 1, [] => 0
  | lines + 1, byte :: bytes =>
    if byte = lineFeed then lineStart lines bytes + 1 else lineStart (lines + 1) bytes + 1

/-- The byte that a line and a column point at: the one in front of the place.  It
lies in the text, unless that is empty; there is none for line zero. -/
def offset? (bytes : List UInt8) (place : LineColumn) : Option Nat :=
  if place.line = 0 then none
  else some (min (lineStart (place.line - 1) bytes + (place.column - 1)) (bytes.length - 1))

end LineColumn

end SwaggerClient
