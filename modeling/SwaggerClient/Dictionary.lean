/-!
# Dictionaries

A dictionary is a list of keys with values in the order in which the keys first
came.  Setting a key again replaces its value in place.
-/

namespace SwaggerClient

/-- Keys with their values, in order. -/
abbrev Dictionary (κ α : Type) := List (κ × α)

namespace Dictionary

variable {κ α : Type} [BEq κ]

/-- Sets the value of a key: in place, or at the end for a new key. -/
def set (key : κ) (value : α) : Dictionary κ α → Dictionary κ α
  | [] => [(key, value)]
  | (k, v) :: entries =>
    if k == key then (k, value) :: entries else (k, v) :: set key value entries

/-- The dictionary made by setting keys one after the other. -/
def ofList (entries : List (κ × α)) : Dictionary κ α :=
  entries.foldl (fun d (key, value) => set key value d) []

/-- The value of a key. -/
def get? (d : Dictionary κ α) (key : κ) : Option α :=
  List.lookup key d

/-- The keys in order. -/
def keys (d : Dictionary κ α) : List κ :=
  d.map Prod.fst

end Dictionary

end SwaggerClient
