import SwaggerClient.Json.Basic
import SwaggerClient.Json.Fault

/-!
# Trees of a JSON text

A text read once, with the places that messages speak of.  A value may be taken,
which is strict, or skipped, which looks at the grammar alone; a tree holds what
either of the two meets, so that a decoder can walk it and stop at the first fault
on its own way.
-/

namespace SwaggerClient

/-- A value without parts. -/
inductive Scalar where
  | null
  | bool (value : Bool)
  | number (value : Number)
  | string (value : String)
  deriving Repr

mutual

/-- A value in a text. -/
inductive Tree where
  /-- A scalar or what stands in the place of one, with the places before and behind
  it, what it is when it is taken, and the fault that is met when it is skipped. -/
  | leaf (start stop : Nat) (taken : Except Fault Scalar) (skipped : Option Fault)
  /-- An array with the place of its bracket. -/
  | array (start : Nat) (items : Items)
  /-- An object with the place of its brace. -/
  | object (start : Nat) (members : Members)

/-- The items of an array. -/
inductive Items where
  /-- The end, with the place behind the bracket. -/
  | closed (stop : Nat)
  /-- The fault that is met instead when the array is taken or skipped. -/
  | broken (taken skipped : Fault)
  /-- An item; then blanks and either the closing bracket or a comma and blanks lie
  before the settled place. -/
  | item (value : Tree) (settled : Nat) (rest : Items)

/-- The members of an object. -/
inductive Members where
  /-- The end, with the place behind the brace. -/
  | closed (stop : Nat)
  /-- The fault that is met instead when the object is taken or skipped. -/
  | broken (taken skipped : Fault)
  /-- A member with its key and the place behind the key.  Behind the key and behind
  the value, blanks and a closing brace lie before the settled place. -/
  | member (key : Except Fault String) (keyStop keySettled : Nat) (value : Tree) (settled : Nat)
      (rest : Members)

end

/-- Where a value is taken from. -/
inductive Source where
  /-- Straight from a text in which some brackets are open. -/
  | text (opened : Nat)
  /-- From a value that has been taken before. -/
  | value
  deriving Repr

/-- The greatest number of brackets that may be open at once in a text. -/
def maxOpen : Nat := 127

/-- The source inside one more bracket, if a text may have one more open. -/
def Source.enter (source : Source) (start : Nat) : Except Fault Source :=
  match source with
  | .value => .ok .value
  | .text opened =>
    if opened < maxOpen then .ok (.text (opened + 1)) else .error (.placed .tooDeep (start + 1))

mutual

/-- The fault that is met when a value is skipped. -/
def Tree.skip : Tree → Except Fault Unit
  | .leaf _ _ _ none => .ok ()
  | .leaf _ _ _ (some fault) => .error fault
  | .array _ items => items.skip
  | .object _ members => members.skip

/-- The fault that is met when items are skipped. -/
def Items.skip : Items → Except Fault Unit
  | .closed _ => .ok ()
  | .broken _ fault => .error fault
  | .item value _ rest => do
    value.skip
    rest.skip

/-- The fault that is met when members are skipped. -/
def Members.skip : Members → Except Fault Unit
  | .closed _ => .ok ()
  | .broken _ fault => .error fault
  | .member _ _ _ value _ rest => do
    value.skip
    rest.skip

end

/-- A scalar as a JSON value. -/
def Scalar.toJson : Scalar → Json
  | .null => .null
  | .bool b => .bool b
  | .number n => .number n
  | .string s => .string s

mutual

/-- A value taken whole.  Of members with the same key the last one counts, in the
place of the first. -/
def Tree.toJson (source : Source) : Tree → Except Fault Json
  | .leaf _ _ taken _ => taken.map Scalar.toJson
  | .array start items => do
    let source ← source.enter start
    return .array (← items.toJson source)
  | .object start members => do
    let source ← source.enter start
    return .object (Dictionary.ofList (← members.toJson source))

/-- Items taken whole. -/
def Items.toJson (source : Source) : Items → Except Fault (List Json)
  | .closed _ => .ok []
  | .broken fault _ => .error fault
  | .item value _ rest => do
    let value ← value.toJson source
    return value :: (← rest.toJson source)

/-- Members taken whole. -/
def Members.toJson (source : Source) : Members → Except Fault (List (String × Json))
  | .closed _ => .ok []
  | .broken fault _ => .error fault
  | .member key _ _ value _ rest => do
    let key ← key
    let value ← value.toJson source
    return (key, value) :: (← rest.toJson source)

end

mutual

/-- The tree of a value that does not come from a text; its places mean nothing. -/
def Json.toTree : Json → Tree
  | .null => .leaf 0 0 (.ok .null) none
  | .bool b => .leaf 0 0 (.ok (.bool b)) none
  | .number n => .leaf 0 0 (.ok (.number n)) none
  | .string s => .leaf 0 0 (.ok (.string s)) none
  | .array items => .array 0 (Json.toItems items)
  | .object members => .object 0 (Json.toMembers members)

/-- The items of an array that does not come from a text. -/
def Json.toItems : List Json → Items
  | [] => .closed 0
  | item :: items => .item item.toTree 0 (Json.toItems items)

/-- The members of an object that does not come from a text. -/
def Json.toMembers : List (String × Json) → Members
  | [] => .closed 0
  | (key, value) :: members => .member (.ok key) 0 0 value.toTree 0 (Json.toMembers members)

end

mutual

/-- How deep the brackets in a value nest. -/
def Tree.height : Tree → Nat
  | .leaf .. => 0
  | .array _ items => items.height + 1
  | .object _ members => members.height + 1

/-- How deep the brackets in items nest. -/
def Items.height : Items → Nat
  | .closed _ | .broken .. => 0
  | .item value _ rest => max value.height rest.height

/-- How deep the brackets in members nest. -/
def Members.height : Members → Nat
  | .closed _ | .broken .. => 0
  | .member _ _ _ value _ rest => max value.height rest.height

end

end SwaggerClient
