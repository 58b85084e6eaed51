import SwaggerClient.CommandLine.Arguments
import SwaggerClient.Settings

/-!
# Requests

What the arguments of the program ask for.
-/

namespace SwaggerClient

/-- A command with what it is given. -/
inductive Command where
  /-- Generate the client of a document, or only show it. -/
  | generate (document : String) (config : Option String) (overrides : Overrides) (dryRun : Bool)
  /-- Check a document. -/
  | check (document : String) (config : Option String) (strict : Bool)
  /-- List the endpoints of a document. -/
  | list (document : String)
  /-- Give the completions for a shell. -/
  | completions (shell : String)
  deriving DecidableEq, Repr

/-- What is asked for in the environment. -/
structure Environment where
  outputDir : Option String := none
  preamble : Option String := none

namespace Command

/-- The option that asks for help. -/
def helpOption : CliOption := ⟨"help", some 'h', false, true⟩

/-- The option that asks for more messages. -/
def verboseOption : CliOption := ⟨"verbose", some 'v', false, true⟩

/-- The options in front of a command. -/
def programOptions : List CliOption :=
  [helpOption, ⟨"version", some 'V', false, true⟩, verboseOption]

/-- The option that names a configuration file. -/
def configOption : CliOption := ⟨"config", some 'c', true, false⟩

/-- The option that makes warnings errors. -/
def strictOption : CliOption := ⟨"strict", none, false, true⟩

/-- The options of `generate`. -/
def generateOptions : List CliOption :=
  [⟨"output", some 'o', true, false⟩, configOption, ⟨"preamble", none, true, true⟩,
    ⟨"error-style", none, true, true⟩, strictOption, ⟨"dry-run", none, false, true⟩,
    helpOption, verboseOption]

/-- The options of `check`. -/
def checkOptions : List CliOption :=
  [configOption, strictOption, helpOption, verboseOption]

/-- The options of the other commands. -/
def plainOptions : List CliOption :=
  [helpOption, verboseOption]

/-- The shells that there are completions for. -/
def shells : List String :=
  ["bash", "elvish", "fish", "powershell", "zsh"]

/-- The only argument of a command that is no option. -/
def single (a : Arguments) : Except ArgumentStop String :=
  match a.positionals with
  | [arg] => .ok arg
  | _ => .error .usage

/-- The path that is the only argument of a command. -/
def document (a : Arguments) : Except ArgumentStop String := do
  let path ← single a
  if path.isEmpty then throw .usage
  return path

/-- The error style of a word that may not be given. -/
def style (word : Option String) : Except ArgumentStop (Option ErrorStyle) :=
  match word with
  | none => .ok none
  | some word =>
    match ErrorStyle.ofName? word with
    | some style => .ok (some style)
    | none => .error .usage

/-- The output directory: the given one, else that of the environment, which may not
be empty. -/
def outputDir (given environment : Option String) : Except ArgumentStop (Option String) :=
  match given, environment with
  | some dir, _ => .ok (some dir)
  | none, some "" => .error .usage
  | none, environment => .ok environment

/-- Reads the arguments of `generate`. -/
def ofGenerate (env : Environment) (args : List String) : Except ArgumentStop Command := do
  let a ← Arguments.ofList generateOptions args
  let overrides : Overrides :=
    { outputDir := ← outputDir (a.value? "output") env.outputDir
      preamble := (a.value? "preamble").or env.preamble
      errorStyle := ← style (a.value? "error-style")
      strict := a.has "strict" }
  return .generate (← document a) (a.value? "config") overrides (a.has "dry-run")

/-- Reads the arguments of `check`. -/
def ofCheck (args : List String) : Except ArgumentStop Command := do
  let a ← Arguments.ofList checkOptions args
  return .check (← document a) (a.value? "config") (a.has "strict")

/-- Reads the arguments of `list`. -/
def ofList (args : List String) : Except ArgumentStop Command := do
  let a ← Arguments.ofList plainOptions args
  return .list (← document a)

/-- Reads the arguments of `completions`. -/
def ofCompletions (args : List String) : Except ArgumentStop Command := do
  let a ← Arguments.ofList plainOptions args
  let shell ← single a
  if shells.contains shell then return .completions shell else throw .usage

/-- What help can be asked for: the whole program, or one command. -/
def helpTopics : List (List String) :=
  [[], ["generate"], ["check"], ["list"], ["completions"], ["help"]]

/-- Reads the name of a command and its arguments. -/
def ofWords (env : Environment) (name : String) (args : List String) :
    Except ArgumentStop Command :=
  match name with
  | "generate" => ofGenerate env args
  | "check" => ofCheck args
  | "list" => ofList args
  | "completions" => ofCompletions args
  | "help" => .error (if helpTopics.contains args then .help else .usage)
  | _ => .error .usage

/-- Reads the arguments of the program: options, then a command. -/
def ofArguments (env : Environment) (a : Arguments) : List String → Except ArgumentStop Command
  | [] => .error .usage
  | arg :: args =>
    match a.read programOptions arg with
    | .error stop => .error stop
    | .ok a =>
      match a.positionals, a.ended with
      | [], false => ofArguments env a args
      | _, true => .error .usage
      | name :: _, false => ofWords env name args

/-- What the arguments of the program ask for. -/
def parse (env : Environment) (args : List String) : Except ArgumentStop Command :=
  ofArguments env {} args

end Command

end SwaggerClient
