import SwaggerClient.Dictionary

/-!
# Arguments

How the arguments of a command are told apart: options with or without a value,
long or short, and everything else.  Short options may share a hyphen, the value of
an option may be attached to it, and two hyphens end the options.
-/

namespace SwaggerClient

/-- An option of a command. -/
structure CliOption where
  /-- The long name. -/
  name : String
  /-- The short name, if there is one. -/
  short : Option Char := none
  /-- Whether the option takes a value. -/
  takesValue : Bool := false
  /-- Whether the value may be empty. -/
  allowsEmpty : Bool := true

/-- Why reading arguments ends early. -/
inductive ArgumentStop where
  /-- The arguments are not well formed. -/
  | usage
  /-- Help is asked for. -/
  | help
  /-- The version is asked for. -/
  | version
  deriving DecidableEq, Repr

/-- What has been read of the arguments. -/
structure Arguments where
  /-- The options that are given, with their values. -/
  values : List (String × String) := []
  /-- What is no option. -/
  positionals : List String := []
  /-- The option whose value comes next. -/
  pending : Option CliOption := none
  /-- Whether the options have ended. -/
  ended : Bool := false

namespace Arguments

variable (a : Arguments)

/-- Notes that an option is given.  Help and version end the reading at once, and no
option may be given twice. -/
def give (o : CliOption) (value : String) : Except ArgumentStop Arguments :=
  if o.name == "help" then .error .help
  else if o.name == "version" then .error .version
  else if (a.values.lookup o.name).isSome || (value.isEmpty && !o.allowsEmpty) then .error .usage
  else .ok { a with values := a.values ++ [(o.name, value)], pending := none }

/-- Reads a long option, without its hyphens. -/
def readLong (options : List CliOption) (text : List Char) : Except ArgumentStop Arguments :=
  let name := text.takeWhile (· != '=')
  let value := text.drop name.length
  match options.find? (·.name == String.ofList name), value with
  | none, _ => .error .usage
  | some o, [] => if o.takesValue then .ok { a with pending := some o } else a.give o ""
  | some o, _ :: value => if o.takesValue then a.give o (.ofList value) else .error .usage

/-- Reads short options, without their hyphen. -/
def readShort (options : List CliOption) (a : Arguments) :
    List Char → Except ArgumentStop Arguments
  | [] => .ok a
  | c :: cs =>
    match options.find? (·.short == some c) with
    | none => .error .usage
    | some o =>
      if o.takesValue then
        match cs with
        | [] => .ok { a with pending := some o }
        | '=' :: value => a.give o (.ofList value)
        | value => a.give o (.ofList value)
      else
        match a.give o "" with
        | .error stop => .error stop
        | .ok a => readShort options a cs

/-- Whether an argument begins like an option. -/
def isOption (arg : String) : Bool :=
  match arg.toList with
  | '-' :: _ :: _ => true
  | _ => false

/-- Reads an argument. -/
def read (a : Arguments) (options : List CliOption) (arg : String) :
    Except ArgumentStop Arguments :=
  if a.ended then .ok { a with positionals := a.positionals ++ [arg] }
  else
    match a.pending, arg.toList with
    | some o, _ => if isOption arg then .error .usage else a.give o arg
    | none, ['-', '-'] => .ok { a with ended := true }
    | none, '-' :: '-' :: text => a.readLong options text
    | none, '-' :: c :: cs => readShort options a (c :: cs)
    | none, _ => .ok { a with positionals := a.positionals ++ [arg] }

/-- Reads all arguments.  No option may be left without its value. -/
def ofList (options : List CliOption) (args : List String) : Except ArgumentStop Arguments := do
  let a ← args.foldlM (fun a arg => a.read options arg) {}
  if a.pending.isSome then throw .usage
  return a

/-- The value of an option, if it is given. -/
def value? (name : String) : Option String :=
  a.values.lookup name

/-- Whether an option is given. -/
def has (name : String) : Bool :=
  (a.value? name).isSome

end Arguments

end SwaggerClient
