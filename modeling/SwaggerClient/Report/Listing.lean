import SwaggerClient.Api.OfDocument
import SwaggerClient.Client.Module
import SwaggerClient.Report.Output

/-!
# Listing endpoints

The endpoints of every group with their functions.  The functions of all groups
stand in one column: it is as far to the right as the longest route has bytes, and
a route has at least as many bytes as characters.  A column that is too far to the
right cannot be reached, and the listing breaks off where it is needed first.
-/

namespace SwaggerClient

/-- An endpoint in a listing. -/
structure ListedEndpoint where
  /-- The verb in capitals. -/
  method : String
  url : String
  function : String
  deriving DecidableEq, Repr

/-- A group in a listing. -/
structure GroupListing where
  name : String
  /-- The file that holds the group. -/
  file : String
  endpoints : List ListedEndpoint
  deriving DecidableEq, Repr

/-- An endpoint as it is listed. -/
def Endpoint.listed (e : Endpoint) : ListedEndpoint :=
  ⟨e.method.toUpper, e.url, e.names.function⟩

/-- The listing of a document. -/
def Document.listing (d : Document) : List GroupListing :=
  let api := d.api
  api.groups.map fun group =>
    ⟨group, moduleFileName group, (api.endpointsIn group).map Endpoint.listed⟩

/-- The verb and the URL of an endpoint. -/
def ListedEndpoint.route (e : ListedEndpoint) : String :=
  e.method ++ " " ++ e.url

/-- The greatest number of characters that a text can be padded to. -/
def maxPadding : Nat := 65535

/-- A text with blanks behind it up to a number of characters, if that many are
possible. -/
def padded? (width : Nat) (text : String) : Option String :=
  if width ≤ maxPadding then
    some (text ++ String.ofList (List.replicate (width - text.length) ' '))
  else none

/-- An endpoint on a line; its route is padded. -/
def ListedEndpoint.line? (width : Nat) (e : ListedEndpoint) : Option String :=
  (padded? width e.route).map fun route => route ++ "  " ++ e.function

/-- The greatest number of bytes in a route of a listing. -/
def listingWidth (groups : List GroupListing) : Nat :=
  ((groups.flatMap (·.endpoints)).map fun e => e.route.utf8ByteSize).foldl max 0

/-- The parts of a group. -/
def GroupListing.parts (width : Nat) (g : GroupListing) : List (Option ReportLine) :=
  some (.heading s!"{g.name} ({g.file})") :: g.endpoints.map fun e =>
    (e.line? width).map .listItem

/-- The parts of groups with empty lines between them. -/
def groupParts (width : Nat) : List GroupListing → List (Option ReportLine)
  | [] => []
  | [g] => g.parts width
  | g :: gs => g.parts width ++ some .newline :: groupParts width gs

/-- The parts of a listing. -/
def listingParts (groups : List GroupListing) : List (Option ReportLine) :=
  if groups.isEmpty then [some (.preformatted "No operations defined")]
  else groupParts (listingWidth groups) groups

/-- What comes out of a listing. -/
def listingOutput (groups : List GroupListing) : ReportOutput :=
  .ofParts (listingParts groups)

/-- The parts of a listing that come out. -/
def listingLines (groups : List GroupListing) : List ReportLine :=
  (listingOutput groups).lines

end SwaggerClient
