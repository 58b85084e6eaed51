import SwaggerClient.Dictionary

/-!
# Configuration values

The values of a configuration text.  How a table came to be decides what may still
be added to it.
-/

namespace SwaggerClient.Toml

/-- How a table came to be. -/
inductive TableOrigin where
  /-- By its own header. -/
  | header
  /-- On the way to the header of a table inside it. -/
  | passed
  /-- By a key with dots. -/
  | dotted
  /-- Between braces. -/
  | inline
  deriving DecidableEq, Repr

/-- A configuration value. -/
inductive Value where
  | string (text : String)
  | boolean (value : Bool)
  /-- A number or a date; the text of either says nothing further here. -/
  | other (text : String)
  | array (items : List Value)
  | table (origin : TableOrigin) (entries : List (String × Value))
  /-- An array of tables, each with its own header. -/
  | tables (items : List (List (String × Value)))
  deriving Repr

/-- The entries of a table. -/
abbrev Entries := List (String × Value)

namespace Entries

/-- Replaces the value of a key that is there. -/
def replace (key : String) (value : Value) (entries : Entries) : Entries :=
  Dictionary.set key value entries

/-- Changes the table that a path leads to.  A path goes through tables, and
through the last table of an array of tables. -/
def modify (change : Entries → Option Entries) : List String → Entries → Option Entries
  | [], entries => change entries
  | key :: path, entries =>
    match entries.lookup key with
    | some (.table origin inner) => do
      return replace key (.table origin (← modify change path inner)) entries
    | some (.tables items) =>
      match items.reverse with
      | [] => none
      | last :: before => do
        return replace key (.tables (before.reverse ++ [← modify change path last])) entries
    | _ => none

/-- Sets a key that is not there yet. -/
def setNew (key : String) (value : Value) (entries : Entries) : Option Entries :=
  if (entries.lookup key).isSome then none else some (entries ++ [(key, value)])

/-- Sets the value of a key with dots.  Tables on the way are made, or must have
been made without a header of their own. -/
def setDotted (value : Value) : List String → Entries → Option Entries
  | [], _ => none
  | [key], entries => setNew key value entries
  | key :: path, entries =>
    match entries.lookup key with
    | none => do return entries ++ [(key, .table .dotted (← setDotted value path []))]
    | some (.table origin inner) =>
      if origin = .dotted ∨ origin = .passed then do
        return replace key (.table origin (← setDotted value path inner)) entries
      else none
    | some _ => none

/-- Opens the table of a header: a new one, or one that was only passed before. -/
def openTable (key : String) (entries : Entries) : Option Entries :=
  match entries.lookup key with
  | none => some (entries ++ [(key, .table .header [])])
  | some (.table .passed inner) => some (replace key (.table .header inner) entries)
  | some _ => none

/-- Adds a table to an array of tables. -/
def openTables (key : String) (entries : Entries) : Option Entries :=
  match entries.lookup key with
  | none => some (entries ++ [(key, .tables [[]])])
  | some (.tables items) => some (replace key (.tables (items ++ [[]])) entries)
  | some _ => none

/-- Makes the tables on the way to a header and opens what is at its end. -/
def openPath (opening : String → Entries → Option Entries) : List String → Entries → Option Entries
  | [], _ => none
  | [key], entries => opening key entries
  | key :: path, entries =>
    match entries.lookup key with
    | none => do return entries ++ [(key, .table .passed (← openPath opening path []))]
    | some (.table .inline _) => none
    | some (.table origin inner) => do
      return replace key (.table origin (← openPath opening path inner)) entries
    | some (.tables items) =>
      match items.reverse with
      | [] => none
      | last :: before => do
        return replace key (.tables (before.reverse ++ [← openPath opening path last])) entries
    | some _ => none

end Entries

end SwaggerClient.Toml
