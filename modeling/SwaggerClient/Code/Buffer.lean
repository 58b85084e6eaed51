import SwaggerClient.Code.Fragment

/-!
# Source buffers

A buffer collects source text and knows the depth at which the next line stands.
-/

namespace SwaggerClient.Code

/-- Source text under construction. -/
structure Buffer where
  /-- How many levels the next line is indented. -/
  depth : Nat := 0
  /-- The text so far. -/
  text : String := ""
  deriving Repr

namespace Buffer

variable (b : Buffer)

/-- Adds characters as they are. -/
def append (cs : List Char) : Buffer :=
  { b with text := b.text ++ String.ofList cs }

/-- Adds text line by line and ends the last line. -/
def pushLine (text : String) : Buffer :=
  b.append (textAt b.depth text.toList)

/-- Adds an empty line. -/
def pushBlank : Buffer :=
  b.append ['\n']

/-- Adds text as it is. -/
def pushRaw (text : String) : Buffer :=
  b.append text.toList

/-- Goes one level deeper. -/
def deepen : Buffer :=
  { b with depth := b.depth + 1 }

/-- Goes one level up, if there is one. -/
def dedent : Buffer :=
  { b with depth := b.depth - 1 }

/-- Adds a documentation comment. -/
def pushDoc (text : String) : Buffer :=
  b.append (docAt b.depth text.toList)

mutual

/-- Adds a fragment.  What stands one level deeper is added after going there, and the buffer
goes back up before the closing line. -/
def push : Buffer → Fragment → Buffer
  | b, .line text => b.pushLine text
  | b, .raw text => b.pushRaw text
  | b, .indent body => (b.deepen.pushAll body).dedent
  | b, .block header body none => ((b.pushLine header).deepen.pushAll body).dedent
  | b, .block header body (some close) =>
    ((b.pushLine header).deepen.pushAll body).dedent.pushLine close
  | b, .doc text => b.pushDoc text

/-- Adds fragments one after the other. -/
def pushAll : Buffer → List Fragment → Buffer
  | b, [] => b
  | b, fragment :: fragments => (b.push fragment).pushAll fragments

end

end Buffer

end SwaggerClient.Code
