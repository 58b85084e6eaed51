import SwaggerClient.Client.Options
import SwaggerClient.Toml.Reader

/-!
# Settings

What is generated and where is settled by a configuration text and by what is
given on the command line, which goes first.
-/

namespace SwaggerClient

/-- What a configuration text says. -/
structure Config where
  outputDir : Option String := none
  preamble : Option String := none
  errorStyle : Option ErrorStyle := none
  strict : Bool := false
  deriving DecidableEq, Repr

namespace Config

open Toml (Value Entries)

/-- A value that must be a string. -/
def stringValue : Value → Option String
  | .string text => some text
  | _ => none

/-- A value that must be a truth value. -/
def boolValue : Value → Option Bool
  | .boolean b => some b
  | _ => none

/-- Whether a value is an array or table without anything in it. -/
def isEmptyValue : Value → Bool
  | .array [] | .table _ [] => true
  | _ => false

/-- A value that must name an error style: its word, or a table with the word as its
only key and nothing in it. -/
def styleValue : Value → Option ErrorStyle
  | .string word => ErrorStyle.ofName? word
  | .table _ [(word, value)] => if isEmptyValue value then ErrorStyle.ofName? word else none
  | _ => none

/-- Sets an entry of the table `output`. -/
def setOutput (c : Config) : String → Value → Option Config
  | "dir", value => do return { c with outputDir := some (← stringValue value) }
  | "preamble", value => do return { c with preamble := some (← stringValue value) }
  | "error_style", value => do return { c with errorStyle := some (← styleValue value) }
  | _, _ => none

/-- Sets an entry of the table `lint`. -/
def setLint (c : Config) : String → Value → Option Config
  | "strict", value => do return { c with strict := ← boolValue value }
  | _, _ => none

/-- Sets the entries of a table, or the items of an array in the place of the entries
with some keys. -/
def setEntries (set : Config → String → Value → Option Config) (keys : List String)
    (c : Config) : Value → Option Config
  | .table _ entries => entries.foldlM (fun c (key, value) => set c key value) c
  | .array items => (keys.zip items).foldlM (fun c (key, value) => set c key value) c
  | .tables items =>
    (keys.zip items).foldlM (fun c (key, entries) => set c key (.table .header entries)) c
  | _ => none

/-- Sets an entry of a configuration. -/
def setTable (c : Config) : String → Value → Option Config
  | "output", value => c.setEntries setOutput ["dir", "preamble", "error_style"] value
  | "lint", value => c.setEntries setLint ["strict"] value
  | _, _ => none

/-- What a configuration text says, unless something in it is wrong or unknown. -/
def ofText? (text : String) : Option Config := do
  (← Toml.read text).foldlM (fun c (key, value) => setTable c key value) {}

/-- The file that is looked for when no configuration file is named. -/
def defaultFile : String := "tsgen.toml"

end Config

/-- What is given on the command line. -/
structure Overrides where
  outputDir : Option String := none
  preamble : Option String := none
  errorStyle : Option ErrorStyle := none
  strict : Bool := false
  deriving DecidableEq, Repr

/-- What is generated and where. -/
structure Settings where
  outputDir : String
  strict : Bool
  options : ClientOptions
  deriving DecidableEq, Repr

/-- The directory for generated files unless another one is given. -/
def defaultOutputDir : String := "dist"

/-- The settings of a configuration under what is given on the command line. -/
def Settings.resolve (c : Config) (o : Overrides) : Settings where
  outputDir := (o.outputDir.or c.outputDir).getD defaultOutputDir
  strict := o.strict || c.strict
  options := ⟨o.preamble.or c.preamble, (o.errorStyle.or c.errorStyle).getD .sentinel⟩

end SwaggerClient
