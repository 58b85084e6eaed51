import SwaggerClient.CommandLine.Request
import SwaggerClient.Document.Source
import SwaggerClient.Report.Generation
import SwaggerClient.Report.Listing

/-!
# Running a command

A command is run on a file tree.  It shows something, may change the tree, and ends
with an exit code.
-/

namespace SwaggerClient

/-- What a run of the program leaves behind. -/
structure Outcome where
  /-- Zero after success, one after a failure, two after arguments that are not well
  formed, and a hundred and one when a report breaks off. -/
  exitCode : UInt8
  output : String := ""
  errors : String := ""
  tree : FileTree

namespace Outcome

/-- A run that fails with a message. -/
def failure (t : FileTree) (message : String) : Outcome :=
  { exitCode := 1, errors := message ++ "\n", tree := t }

/-- A run that shows a report. -/
def ofLines (exitCode : UInt8) (t : FileTree) (lines : List ReportLine) : Outcome :=
  { exitCode
    output := String.join (lines.map ReportLine.shown)
    errors := String.join (lines.map ReportLine.shownAsError)
    tree := t }

end Outcome

/-- The configuration of a file.  Without a name the usual file is taken, if it is
there. -/
def Config.load (t : FileTree) (path : Option String) : Except String Config :=
  let read (path : String) : Except String Config :=
    match t.read path with
    | .error _ => .error ("failed to read config '" ++ path ++ "'")
    | .ok text =>
      match Config.ofText? text with
      | none => .error ("invalid config '" ++ path ++ "'")
      | some config => .ok config
  match path with
  | some path => read path
  | none => if t.hasFile Config.defaultFile then read Config.defaultFile else .ok {}

namespace Command

/-- Runs `check`. -/
def runCheck (t : FileTree) (path : String) (config : Option String) (strict : Bool) :
    Except String Outcome := do
  let d ← (Document.ofFile t path).mapError DocumentError.message
  let config ← Config.load t config
  let report := d.check path (strict || config.strict)
  return .ofLines (if report.isValid then 0 else 1) t report.lines

/-- Runs `list`. -/
def runList (t : FileTree) (path : String) : Except String Outcome := do
  let d ← (Document.ofFile t path).mapError DocumentError.message
  let output := listingOutput d.listing
  return .ofLines (if output.complete then 0 else 101) t output.lines

/-- Runs `generate`. -/
def runGenerate (t : FileTree) (path : String) (config : Option String) (overrides : Overrides)
    (dryRun : Bool) : Except String Outcome := do
  let d ← (Document.ofFile t path).mapError DocumentError.message
  let settings := Settings.resolve (← Config.load t config) overrides
  match d.generate path settings dryRun t with
  | (t, .ok report) => return .ofLines 0 t report.lines
  | (t, .error error) => return .failure t (": ".intercalate error.messages)

/-- Runs a command. -/
def run (t : FileTree) (command : Command) : Outcome :=
  let result :=
    match command with
    | .generate path config overrides dryRun => runGenerate t path config overrides dryRun
    | .check path config strict => runCheck t path config strict
    | .list path => runList t path
    | .completions _ => .ok { exitCode := 0, tree := t }
  match result with
  | .ok outcome => outcome
  | .error message => .failure t message

/-- The files that a command may read. -/
def inputs : Command → List String
  | .generate path config _ _ | .check path config _ => [path, config.getD Config.defaultFile]
  | .list path => [path]
  | .completions _ => []

end Command

/-- The name and the version of the program. -/
def versionLine : String := "tsgen 0.3.0"

/-- How the program is called. -/
def usageLine : String := "Usage: tsgen [OPTIONS] <COMMAND>"

/-- Runs the program with arguments. -/
def runProgram (env : Environment) (args : List String) (t : FileTree) : Outcome :=
  match Command.parse env args with
  | .ok command => command.run t
  | .error .version => { exitCode := 0, output := versionLine ++ "\n", tree := t }
  | .error .help => { exitCode := 0, output := usageLine ++ "\n", tree := t }
  | .error .usage => { exitCode := 2, errors := usageLine ++ "\n", tree := t }

end SwaggerClient
