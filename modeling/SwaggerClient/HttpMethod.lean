/-!
# HTTP methods

The verbs under which a path of a document may declare an operation.
-/

namespace SwaggerClient

/-- An HTTP verb. -/
inductive HttpMethod where
  | get
  | put
  | post
  | delete
  | options
  | head
  | patch
  deriving DecidableEq, Repr

namespace HttpMethod

/-- All verbs. -/
def all : List HttpMethod := [get, put, post, delete, options, head, patch]

/-- A verb in small letters. -/
def name : HttpMethod → String
  | get => "get"
  | put => "put"
  | post => "post"
  | delete => "delete"
  | options => "options"
  | head => "head"
  | patch => "patch"

/-- The verb that a word spells, in capitals or not.  The small letters of ASCII
are enough here: no other character has a letter of a verb as its small form. -/
def ofName? (word : String) : Option HttpMethod :=
  all.find? fun method => method.name.toList == word.toList.map Char.toLower

/-- What is said of a word that is no verb. -/
def unknownMessage (word : String) : String :=
  s!"'{word}' is not an HTTP method"

end HttpMethod

end SwaggerClient
