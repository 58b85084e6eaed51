import SwaggerClient.CommandLine.Run

/-!
# The program

Loads the files that the command names, runs it, and writes the files it has
generated.
-/

namespace SwaggerClient

/-- Adds the file at a path to a tree, if it can be read. -/
def loadFile (t : FileTree) (path : String) : IO FileTree := do
  try
    let content ← IO.FS.readFile path
    return (t.write path content).toOption.getD t
  catch _ => return t

/-- Writes the files of a tree that were not in it before. -/
def saveFiles (before after : FileTree) : IO Unit :=
  for (path, content) in after.writtenSince before do
    let directory := Path.parent path
    unless directory.isEmpty do IO.FS.createDirAll directory
    IO.FS.writeFile path content

end SwaggerClient

open SwaggerClient in
/-- Runs the program with the arguments and the environment of the process. -/
def main (args : List String) : IO UInt32 := do
  let env : Environment :=
    ⟨← IO.getEnv "TSGEN_OUTPUT_DIR", ← IO.getEnv "TSGEN_PREAMBLE"⟩
  let paths := (Command.parse env args).toOption.elim [] Command.inputs
  let before ← paths.foldlM loadFile {}
  let outcome := runProgram env args before
  try
    saveFiles before outcome.tree
  catch error =>
    IO.eprintln (toString error)
    return 1
  IO.print outcome.output
  IO.eprint outcome.errors
  return outcome.exitCode.toUInt32
