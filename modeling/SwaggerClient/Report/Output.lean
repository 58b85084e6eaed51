/-!
# Reports

A report says what is to be shown, and a terminal how.
-/

namespace SwaggerClient

/-- A part of a report. -/
inductive ReportLine where
  /-- The heading of a section. -/
  | heading (name : String)
  /-- A key with its value. -/
  | keyValue (key value : String)
  /-- An item of a list. -/
  | listItem (text : String)
  /-- An item that has been added, such as a new file. -/
  | addedItem (text : String)
  /-- A diagnostic, shown apart from the rest. -/
  | warning (text : String)
  /-- A line between parts, with a label. -/
  | divider (label : String)
  /-- Text that is shown as it is. -/
  | preformatted (text : String)
  | newline
  deriving DecidableEq, Repr

namespace ReportLine

/-- What a terminal shows of a part on its main stream. -/
def shown : ReportLine → String
  | heading name => name ++ ":\n"
  | keyValue key value => key ++ ": " ++ value ++ "\n"
  | listItem text => "  - " ++ text ++ "\n"
  | addedItem text => "  + " ++ text ++ "\n"
  | warning _ => ""
  | divider label => "── " ++ label ++ " ──\n"
  | preformatted text => text ++ "\n"
  | newline => "\n"

/-- What a terminal shows of a part on its error stream. -/
def shownAsError : ReportLine → String
  | warning text => text ++ "\n"
  | _ => ""

end ReportLine

/-- What comes out of a report: its parts up to the first one that cannot be made. -/
structure ReportOutput where
  lines : List ReportLine := []
  /-- Whether all parts came out. -/
  complete : Bool
  deriving DecidableEq, Repr

/-- Shows parts one after the other.  A part that cannot be made breaks off the report. -/
def ReportOutput.ofParts : List (Option ReportLine) → ReportOutput
  | [] => { complete := true }
  | none :: _ => { complete := false }
  | some line :: parts =>
    let rest := ofParts parts
    { rest with lines := line :: rest.lines }

end SwaggerClient
