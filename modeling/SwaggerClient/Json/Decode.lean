import SwaggerClient.Json.Tree

/-!
# Decoding

Decoders turn a tree into data.  They look at the parts of a tree in the order of
the text, so the first fault on their way is the fault of the text.  A fault
without a place gets one from the innermost bracket that is still open.
-/

namespace SwaggerClient

/-- A scalar in a message. -/
def Scalar.found : Scalar → Found
  | .null => .null
  | .bool b => .bool b
  | .number n => .number n
  | .string s => .string s

/-- The fault of a value that is not what was expected. -/
def mismatch (expected : String) : Tree → Fault
  | .leaf _ stop (.ok scalar) _ => .placed (.invalidType scalar.found expected) stop
  | .leaf _ _ (.error fault) _ => fault
  | .array start _ => .placed (.invalidType .sequence expected) start
  | .object start _ => .placed (.invalidType .map expected) start

/-- A string. -/
def decodeString : Tree → Except Fault String
  | .leaf _ _ (.ok (.string s)) _ => .ok s
  | t => .error (mismatch "a string" t)

/-- A truth value. -/
def decodeBool : Tree → Except Fault Bool
  | .leaf _ _ (.ok (.bool b)) _ => .ok b
  | t => .error (mismatch "a boolean" t)

variable {α δ : Type}

/-- A value that may be absent; `null` says that it is. -/
def decodeOption (decode : Tree → Except Fault α) : Tree → Except Fault (Option α)
  | .leaf _ _ (.ok .null) _ => .ok none
  | t => (decode t).map some

/-- The items of an array. -/
def Items.decodeAll (decode : Tree → Except Fault α) : Items → Except Fault (List α)
  | .closed _ => .ok []
  | .broken fault _ => .error fault
  | .item value settled rest => do
    let value ← settling settled (decode value)
    return value :: (← rest.decodeAll decode)

/-- An array as a list. -/
def decodeList (decode : Source → Tree → Except Fault α) (source : Source) :
    Tree → Except Fault (List α)
  | .array start items => do items.decodeAll (decode (← source.enter start))
  | t => .error (mismatch "a sequence" t)

/-- The members of an object. -/
def Members.decodeAll (decode : Tree → Except Fault α) :
    Members → Except Fault (List (String × α))
  | .closed _ => .ok []
  | .broken fault _ => .error fault
  | .member key _ _ value settled rest => do
    let key ← key
    let value ← settling settled (decode value)
    return (key, value) :: (← rest.decodeAll decode)

/-- An object as a dictionary: the last value of a key counts, in the place of the
first. -/
def decodeDictionary (decode : Source → Tree → Except Fault α) (source : Source) :
    Tree → Except Fault (Dictionary String α)
  | .object start members => do
    return Dictionary.ofList (← members.decodeAll (decode (← source.enter start)))
  | t => .error (mismatch "a map" t)

/-! ## Records -/

/-- How a record is decoded into a draft, field by field. -/
structure Record (δ : Type) where
  /-- The name of the record in messages. -/
  name : String
  /-- The fields in the order in which an array gives them. -/
  fields : List String
  /-- The fields that must be given. -/
  required : List String := []
  /-- Puts the value of a field into a draft. -/
  set : Source → String → Tree → δ → Except Fault δ

namespace Record

variable (r : Record δ)

/-- Decodes the members of an object that gives a record; some fields have been
seen.  Members that are no fields are skipped. -/
def ofMembers (source : Source) : List String → Members → δ → Except Fault δ
  | seen, .closed stop, draft =>
    match r.required.find? fun name => !seen.contains name with
    | some name => .error (.placed (.missingField name) stop)
    | none => .ok draft
  | _, .broken fault _, _ => .error fault
  | seen, .member key _ keySettled value settled rest, draft => do
    let name ← key
    if r.fields.contains name then
      if seen.contains name then .error (.placed (.duplicateField name) keySettled)
      else
        let draft ← settling settled (r.set source name value draft)
        ofMembers source (name :: seen) rest draft
    else
      value.skip
      ofMembers source seen rest draft

/-- How many items there are. -/
def countItems : Items → Nat
  | .closed _ | .broken .. => 0
  | .item _ _ rest => countItems rest + 1

/-- The fault of an array that goes on behind the last field; the place behind the
last field is given. -/
def surplus (source : Source) (settled : Nat) (items : Items) : Except Fault Unit :=
  match items, source with
  | .closed _, _ => .ok ()
  | .item .., .text _ => .error (.placed .trailingCharacters (settled + 1))
  | items@(.item ..), .value =>
    .error ⟨.invalidLength (r.fields.length + countItems items) "fewer elements in array", none⟩
  | .broken fault _, _ =>
    match fault.reason with
    | .endInList | .trailingComma => .error fault
    | _ => .error ⟨.trailingCharacters, fault.offset⟩

/-- Decodes the items of an array that gives a record; some fields are left, and
the place behind the last one is given. -/
def ofItems (source : Source) : List String → Nat → Items → δ → Except Fault δ
  | [], settled, items, draft => do
    r.surplus source settled items
    return draft
  | left, _, .closed stop, draft =>
    match r.required.find? left.contains with
    | some name =>
      .error (.placed (.invalidLength (r.fields.idxOf name)
        s!"struct {r.name} with {r.fields.length} elements") stop)
    | none => .ok draft
  | _, _, .broken fault _, _ => .error fault
  | name :: left, _, .item value settled rest, draft => do
    let draft ← settling settled (r.set source name value draft)
    ofItems source left settled rest draft

/-- Decodes a record from an object or from an array of its fields. -/
def decode (source : Source) (draft : δ) : Tree → Except Fault δ
  | .object start members => do r.ofMembers (← source.enter start) [] members draft
  | .array start items => do r.ofItems (← source.enter start) r.fields start items draft
  | t => .error (mismatch s!"struct {r.name}" t)

end Record

/-! ## Words -/

/-- Whether a fault lies inside a string. -/
def Reason.inString : Reason → Bool
  | endInString | controlCharacter | invalidEscape | unexpectedEscapeEnd | loneSurrogate => true
  | _ => false

/-- The fault of a leaf of a text where a word should stand.  Only a string is
looked into; of anything else the first byte is enough. -/
def wordLeafFault (start : Nat) : Except Fault Scalar → Fault
  | .error fault =>
    let kept := fault.reason.inString ||
      match fault.reason with
      | .endInValue => fault.offset == some start
      | .expectedColon | .endInObject => true
      | _ => false
    if kept then fault else .placed .expectedValue (start + 1)
  | .ok _ => .placed .expectedValue (start + 1)

/-- A word that stands as the only key of an object in a text, with the value
`null`. -/
def decodeKeyWord (parse : String → Except Reason α) : Members → Except Fault α
  | .closed stop => .error (.placed .expectedValue stop)
  | .broken fault _ => .error fault
  | .member key keyStop _ value settled rest => do
    let word ← key
    let a ← (parse word).mapError (Fault.placed · keyStop)
    match value with
    | .leaf _ _ (.ok .null) _ => pure ()
    | value => throw (mismatch "unit" value)
    match rest with
    | .closed _ => return a
    | .broken ⟨.endInObject, offset⟩ _ => throw ⟨.endInObject, offset⟩
    | _ => throw (.placed .expectedValue settled)

/-- A word of a fixed list: a string, or an object with the word as its only key
and the value `null`. -/
def decodeWord (parse : String → Except Reason α) (source : Source) (t : Tree) :
    Except Fault α :=
  match t, source with
  | .leaf _ stop (.ok (.string word)) _, _ => (parse word).mapError (Fault.placed · stop)
  | .object start members, .text opened => do
    let _ ← Source.enter (.text opened) start
    decodeKeyWord parse members
  | .object _ (.member (.ok word) keyStop _ value _ (.closed _)), .value => do
    let a ← (parse word).mapError (Fault.placed · keyStop)
    match value with
    | .leaf _ _ (.ok .null) _ => return a
    | value => throw (mismatch "unit" value)
  | .object .., .value => .error ⟨.notSingleKey, none⟩
  | .leaf start _ taken _, .text _ => .error (wordLeafFault start taken)
  | .array start _, .text _ => .error (.placed .expectedValue (start + 1))
  | t, .value => .error (mismatch "string or map" t)

/-- A value that may have several forms.  It is taken whole first; then the forms
are tried, and which fault they meet does not matter. -/
def decodeForms (name : String) (forms : Tree → Option α) (source : Source) (t : Tree) :
    Except Fault α := do
  match source with
  | .text _ => discard (t.toJson source)
  | .value => pure ()
  match forms t with
  | some a => return a
  | none => throw ⟨.noVariant name, none⟩

end SwaggerClient
