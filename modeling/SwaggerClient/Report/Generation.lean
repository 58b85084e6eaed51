import SwaggerClient.Client.Module
import SwaggerClient.FileTree.Basic
import SwaggerClient.Report.Check
import SwaggerClient.Settings

/-!
# Generating a client

The modules of a client are written below the output directory, or only shown.
-/

namespace SwaggerClient

/-- What has become of the modules. -/
inductive GenerationResult where
  /-- They have been written to paths below a directory. -/
  | written (outputDir : String) (paths : List String)
  /-- They are shown, with name and content. -/
  | preview (files : List (String × String))
  deriving Repr

/-- What a generation has done. -/
structure GenerateReport where
  /-- The path of the document. -/
  path : String
  warnings : List String
  endpointCount : Nat
  /-- The groups with the numbers of their endpoints. -/
  groups : List (String × Nat)
  result : GenerationResult
  deriving Repr

/-- Why nothing, or not everything, is generated. -/
inductive GenerateError where
  | invalid (error : CompilationError)
  | notWritten (failure : WriteFailure)
  deriving DecidableEq, Repr

/-- What is said of an error, from the outside to the cause. -/
def GenerateError.messages : GenerateError → List String
  | invalid error =>
    ["Pipeline failed, run `tsgen check` to see diagnostics", error.message]
  | notWritten failure =>
    ["Failed to generate code", failure.message, failure.obstacle.message]

/-- The groups of a client with the numbers of their endpoints. -/
def Api.groupSizes (api : Api) : List (String × Nat) :=
  api.groups.map fun group => (group, (api.endpointsIn group).length)

/-- The files of a client at their paths below a directory. -/
def Api.outputFiles (api : Api) (options : ClientOptions) (dir : String) :
    List (String × String) :=
  (api.files options).map fun (name, content) => (Path.join dir name, content)

/-- Writes the files of a client; what was written before a failure stays. -/
def Api.write (api : Api) (options : ClientOptions) (dir : String) (t : FileTree) :
    FileTree × Except WriteFailure (List String) :=
  let files := api.outputFiles options dir
  let (t, outcome) := t.writeAll files
  (t, outcome.map fun _ => files.map Prod.fst)

/-- Generates the client of a document. -/
def Document.generate (d : Document) (path : String) (settings : Settings) (dryRun : Bool)
    (t : FileTree) : FileTree × Except GenerateError GenerateReport :=
  match d.compile settings.strict with
  | .error error => (t, .error (.invalid error))
  | .ok c =>
    match c.takeApi.1 with
    | .error error => (t, .error (.invalid error))
    | .ok api =>
      let report (result : GenerationResult) : GenerateReport :=
        ⟨path, c.messages .warning, api.endpoints.length, api.groupSizes, result⟩
      if dryRun then (t, .ok (report (.preview (api.files settings.options))))
      else
        let (t, outcome) := api.write settings.options settings.outputDir t
        match outcome with
        | .error failure => (t, .error (.notWritten failure))
        | .ok paths => (t, .ok (report (.written settings.outputDir paths)))

namespace GenerateReport

variable (r : GenerateReport)

/-- The ending of a noun after a count. -/
def plural (count : Nat) : String :=
  if count = 1 then "" else "s"

/-- A count with a noun. -/
def counted (count : Nat) (noun : String) : String :=
  toString count ++ " " ++ noun ++ plural count

/-- The parts of a report. -/
def lines : List ReportLine :=
  (r.warnings.map fun text => .warning ("warning: " ++ text))
    ++ (match r.result with
        | .written outputDir paths =>
          [.preformatted (r.path ++ ": " ++ counted r.endpointCount "endpoint" ++ " in "
              ++ counted r.groups.length "group"),
            .newline, .heading s!"Generated ({outputDir})"] ++ paths.map .addedItem
        | .preview files =>
          (files.flatMap fun (name, content) => [.divider name, .preformatted content])
            ++ [.divider "Summary",
              .preformatted (counted files.length "file" ++ " would be generated")])

end GenerateReport

end SwaggerClient
