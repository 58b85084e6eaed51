import SwaggerClient.Dictionary
import SwaggerClient.FileTree.Path

/-!
# File trees

The files that a program can reach, as a value.  A location is the list of steps
from the working directory; of what lies outside of it only the directories above
are known.
-/

namespace SwaggerClient

/-- The steps from the working directory to a file or directory. -/
abbrev FileLocation := List String

/-- Files with their contents, and directories. -/
structure FileTree where
  files : Dictionary FileLocation String := []
  /-- The directories that are known beside those that hold files. -/
  directories : List FileLocation := []

/-- Why a file cannot be read. -/
inductive ReadFailure where
  | notFound
  | isDirectory
  | notDirectory
  deriving DecidableEq, Repr

/-- What stands in the way of a file or directory. -/
inductive Obstacle where
  /-- A file of the name is there. -/
  | taken
  /-- A file stands where a directory should. -/
  | notDirectory
  /-- A directory of the name is there. -/
  | isDirectory
  | nameTooLong
  | notFound
  /-- The path holds a NUL character, which ends a path. -/
  | nulCharacter
  deriving DecidableEq, Repr

/-- The words of the operating system for an obstacle. -/
def Obstacle.message : Obstacle → String
  | taken => "File exists (os error 17)"
  | notDirectory => "Not a directory (os error 20)"
  | isDirectory => "Is a directory (os error 21)"
  | nameTooLong => "File name too long (os error 36)"
  | notFound => "No such file or directory (os error 2)"
  | nulCharacter => "file name contained an unexpected NUL byte"

/-- Why a file is not written. -/
inductive WriteFailure where
  /-- The directory of the file cannot be made. -/
  | noDirectory (path : String) (obstacle : Obstacle)
  | noFile (path : String) (obstacle : Obstacle)
  deriving DecidableEq, Repr

namespace WriteFailure

/-- What is said of a failure. -/
def message : WriteFailure → String
  | noDirectory path _ => "failed to create '" ++ path ++ "'"
  | noFile path _ => "failed to write '" ++ path ++ "'"

/-- What a failure comes from. -/
def obstacle : WriteFailure → Obstacle
  | noDirectory _ obstacle | noFile _ obstacle => obstacle

end WriteFailure

namespace FileLocation

/-- Whether a location lies above the working directory, or is that directory. -/
def isAbove (location : FileLocation) : Bool :=
  location.all (· == "..") || location == ["/"]

/-- The location of the directory that holds a location. -/
def up (location : FileLocation) : FileLocation :=
  if location == ["/"] then location
  else if location.all (· == "..") then location ++ [".."]
  else location.dropLast

/-- The location one step further; empty steps and dots stay. -/
def step (location : FileLocation) (component : String) : FileLocation :=
  if component == "" || component == "." then location
  else if component == ".." then up location
  else location ++ [component]

/-- Where a path starts. -/
def start (path : String) : FileLocation :=
  if Path.isAbsolute path then ["/"] else []

end FileLocation

namespace FileTree

variable (t : FileTree)

/-- The greatest number of bytes in the name of a file. -/
def maxNameBytes : Nat := 255

/-- Whether a location is a file. -/
def isFile (location : FileLocation) : Bool :=
  (t.files.get? location).isSome

/-- Whether a location is a directory. -/
def isDirectory (location : FileLocation) : Bool :=
  FileLocation.isAbove location || t.directories.contains location
    || t.files.any fun (file, _) => location.isPrefixOf file && location != file

/-- Follows components from a location; all but the last must be directories. -/
def follow (location : FileLocation) : List String → Except ReadFailure FileLocation
  | [] => .ok location
  | component :: components =>
    if t.isDirectory location then follow (FileLocation.step location component) components
    else if t.isFile location then .error .notDirectory
    else .error .notFound

/-- The location of a path. -/
def locate (path : String) : Except ReadFailure FileLocation :=
  if path.isEmpty then .error .notFound
  else t.follow (FileLocation.start path) (Path.components path)

/-- The content of the file at a path. -/
def read (path : String) : Except ReadFailure String := do
  let location ← t.locate path
  match t.files.get? location with
  | some content => return content
  | none => throw (if t.isDirectory location then .isDirectory else .notFound)

/-- Whether there is a file at a path. -/
def hasFile (path : String) : Bool :=
  match t.locate path with
  | .ok location => t.isFile location
  | .error _ => false

/-- Makes the directories along components, as far as they are not there. -/
def makeDirectories (t : FileTree) (location : FileLocation) :
    List String → Except Obstacle FileTree
  | [] => .ok t
  | component :: components =>
    let next := FileLocation.step location component
    if t.isDirectory next then makeDirectories t next components
    else if t.isFile next then .error (if components.isEmpty then .taken else .notDirectory)
    else if maxNameBytes < component.utf8ByteSize then .error .nameTooLong
    else makeDirectories { t with directories := t.directories ++ [next] } next components

/-- Makes the directory of a path and those above it. -/
def makeDirectory (path : String) : Except Obstacle FileTree :=
  if path.isEmpty then .ok t
  else if path.contains '\x00' then .error .nulCharacter
  else t.makeDirectories (FileLocation.start path) (Path.components path)

/-- Puts content into the file at a path whose directory is there. -/
def store (path content : String) : Except Obstacle FileTree :=
  if path.contains '\x00' then .error .nulCharacter
  else
    match t.locate path with
    | .error .notDirectory => .error .notDirectory
    | .error _ => .error .notFound
    | .ok location =>
      if t.isDirectory location then .error .isDirectory
      else if maxNameBytes < (location.getLast?.getD "").utf8ByteSize then .error .nameTooLong
      else .ok { t with files := Dictionary.set location content t.files }

/-- Writes a file and makes the directories that it needs. -/
def write (path content : String) : Except WriteFailure FileTree :=
  match t.makeDirectory (Path.parent path) with
  | .error obstacle => .error (.noDirectory (Path.parent path) obstacle)
  | .ok t => (t.store path content).mapError (.noFile path)

/-- Writes files one after the other, up to the first that fails. -/
def writeAll (t : FileTree) : List (String × String) → FileTree × Except WriteFailure Unit
  | [] => (t, .ok ())
  | (path, content) :: files =>
    match t.write path content with
    | .error failure => (t, .error failure)
    | .ok t => writeAll t files

/-- A file tree with files at paths below the working directory. -/
def ofFiles (files : List (String × String)) : FileTree :=
  { files := Dictionary.ofList (files.map fun (path, content) => (Path.components path, content)) }

/-- The files that are new or not as they were before, by their paths. -/
def writtenSince (before : FileTree) : List (String × String) :=
  (t.files.filter fun (location, content) => before.files.get? location != some content).map
    fun (location, content) => ("/".intercalate location, content)

/-- The files below the working directory that are new or not as they were before,
in the order of their paths. -/
def changesSince (before : FileTree) : List (String × String) :=
  let below : FileTree :=
    { files := t.files.filter fun (location, _) =>
        location.head? != some ".." && location.head? != some "/" }
  (below.writtenSince before).mergeSort fun a b => a.1 ≤ b.1

end FileTree

end SwaggerClient
