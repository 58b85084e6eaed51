import Mathlib.Data.List.Forall2
import Mathlib.Data.List.TakeWhile
import SwaggerClient.Proofs.Api.Groups
import SwaggerClient.Report.Listing

/-!
# The column of a listing

In a listing that comes out whole the functions of all groups stand in one column, whatever
characters the routes are made of: a text has at most as many characters as bytes, so no route
reaches the column.  A listing comes out whole exactly when its column is not too far to the right
to be padded to.
-/

namespace SwaggerClient

/-! ## What comes out of a report -/

/-- The text of an item of a list. -/
def ReportLine.itemText? : ReportLine → Option String
  | .listItem text => some text
  | _ => none

namespace ReportOutput

/-- The items of lists that come out of a report, in order. -/
def items (output : ReportOutput) : List String :=
  output.lines.filterMap ReportLine.itemText?

variable (parts : List (Option ReportLine))

/-- A report comes out whole when all its parts can be made. -/
theorem complete_ofParts : (ofParts parts).complete = parts.all Option.isSome := by
  induction parts with
  | nil => rfl
  | cons part parts ih =>
    cases part with
    | none => rfl
    | some line => simpa [ofParts] using ih

theorem items_ofParts :
    (ofParts parts).items =
      (parts.takeWhile Option.isSome).filterMap (·.bind ReportLine.itemText?) := by
  rw [items]
  induction parts with
  | nil => rfl
  | cons part parts ih =>
    cases part with
    | none => rfl
    | some line => simp [ofParts, List.filterMap_cons, ih]

end ReportOutput

/-! ## The parts of a listing -/

/-- The endpoints of all groups of a listing, in order. -/
def listedEndpoints (groups : List GroupListing) : List ListedEndpoint :=
  groups.flatMap (·.endpoints)

theorem listedEndpoints_cons (g : GroupListing) (groups : List GroupListing) :
    listedEndpoints (g :: groups) = g.endpoints ++ listedEndpoints groups :=
  List.flatMap_cons

/-- The items of a group are its endpoints, as far as they can be put on a line. -/
theorem filterMap_parts (width : Nat) (g : GroupListing) :
    (g.parts width).filterMap (·.bind ReportLine.itemText?) =
      g.endpoints.filterMap (·.line? width) := by
  rw [GroupListing.parts, List.filterMap_cons_none rfl, List.filterMap_map]
  refine List.filterMap_congr fun e _ => ?_
  cases h : e.line? width <;> simp [ReportLine.itemText?, h]

theorem filterMap_groupParts (width : Nat) (groups : List GroupListing) :
    (groupParts width groups).filterMap (·.bind ReportLine.itemText?) =
      (listedEndpoints groups).filterMap (·.line? width) := by
  fun_induction groupParts width groups with
  | case1 => rfl
  | case2 g => simp [listedEndpoints, filterMap_parts]
  | case3 g groups hne ih =>
    rw [List.filterMap_append, filterMap_parts, List.filterMap_cons_none rfl, ih,
      listedEndpoints_cons, List.filterMap_append]

theorem all_groupParts (width : Nat) (groups : List GroupListing) :
    (groupParts width groups).all Option.isSome =
      (listedEndpoints groups).all fun e => (e.line? width).isSome := by
  have hgroup : ∀ g : GroupListing, (g.parts width).all Option.isSome =
      g.endpoints.all fun e => (e.line? width).isSome := by
    intro g
    simp [GroupListing.parts, List.all_map, Function.comp_def]
  fun_induction groupParts width groups with
  | case1 => rfl
  | case2 g => simp [listedEndpoints, hgroup]
  | case3 g groups hne ih =>
    rw [List.all_append, hgroup, List.all_cons, Option.isSome_some, Bool.true_and, ih,
      listedEndpoints_cons, List.all_append]

/-- The items that come out of a listing, and whether all of it does, as far as the endpoints can
be put on lines. -/
theorem listingParts_spec (groups : List GroupListing) :
    ((listingParts groups).filterMap (·.bind ReportLine.itemText?) =
      (listedEndpoints groups).filterMap (·.line? (listingWidth groups))) ∧
    (listingParts groups).all Option.isSome =
      (listedEndpoints groups).all fun e => (e.line? (listingWidth groups)).isSome := by
  cases groups with
  | nil => exact ⟨rfl, rfl⟩
  | cons g groups => exact ⟨filterMap_groupParts _ _, all_groupParts _ _⟩

/-! ## Widths -/

/-- A text has at most as many characters as bytes. -/
theorem length_le_utf8ByteSize (text : String) : text.length ≤ text.utf8ByteSize := by
  induction text using String.push_induction with
  | empty => exact Nat.zero_le _
  | push text c ih =>
    have hpos := c.utf8Size_pos
    rw [String.length_push, String.utf8ByteSize_push]
    omega

theorem foldl_max_le_iff {l : List Nat} {a b : Nat} :
    l.foldl max a ≤ b ↔ a ≤ b ∧ ∀ x ∈ l, x ≤ b := by
  induction l generalizing a with
  | nil => simp
  | cons x l ih => rw [List.foldl_cons, ih, Nat.max_le, List.forall_mem_cons, and_assoc]

theorem listingWidth_le_iff {groups : List GroupListing} {width : Nat} :
    listingWidth groups ≤ width ↔
      ∀ e ∈ listedEndpoints groups, e.route.utf8ByteSize ≤ width := by
  rw [listingWidth, foldl_max_le_iff, List.forall_mem_map]
  exact and_iff_right (Nat.zero_le _)

/-! ## Columns -/

namespace ListedEndpoint

/-- Whether an item shows the whole route of an endpoint, behind it two blanks or more, and from a
column on the function. -/
def StandsAt (e : ListedEndpoint) (column : Nat) (item : String) : Prop :=
  ∃ gap, 2 ≤ gap ∧ e.route.length + gap = column ∧
    item.toList = e.route.toList ++ List.replicate gap ' ' ++ e.function.toList

variable {e : ListedEndpoint} {width : Nat}

theorem isSome_line?_iff : (e.line? width).isSome ↔ width ≤ maxPadding := by
  by_cases h : width ≤ maxPadding <;> simp [line?, padded?, h]

/-- A line shows the function in the column behind the width and two blanks. -/
theorem standsAt_of_line? (hwidth : e.route.length ≤ width) {item : String}
    (h : e.line? width = some item) : e.StandsAt (width + 2) item := by
  rw [line?, padded?] at h
  split at h
  next =>
    obtain rfl := Option.some.inj h
    refine ⟨width - e.route.length + 2, Nat.le_add_left _ _, by omega, ?_⟩
    simp [List.replicate_add]
  next => cases h

end ListedEndpoint

/-- Whether a listing comes out whole, with one item for each endpoint, in order, and all functions
in the column behind the width and two blanks. -/
def Aligned (groups : List GroupListing) : Prop :=
  (listingOutput groups).complete ∧
    List.Forall₂ (fun e => e.StandsAt (listingWidth groups + 2))
      (listedEndpoints groups) (listingOutput groups).items

theorem complete_listingOutput_iff {groups : List GroupListing} :
    (listingOutput groups).complete ↔ listingWidth groups ≤ maxPadding := by
  rw [listingOutput, ReportOutput.complete_ofParts, (listingParts_spec groups).2, List.all_eq_true]
  simp only [ListedEndpoint.isSome_line?_iff]
  constructor
  · intro h
    by_contra hwide
    -- A listing that is too wide has a route, and the route is too wide as well.
    have hroute : ¬ ∀ e ∈ listedEndpoints groups, e.route.utf8ByteSize ≤ maxPadding :=
      mt listingWidth_le_iff.2 hwide
    push Not at hroute
    obtain ⟨e, he, -⟩ := hroute
    exact hwide (h e he)
  · exact fun h e _ => h

/-- A listing that does not come out whole has no item. -/
theorem items_eq_nil {groups : List GroupListing} (h : ¬ listingWidth groups ≤ maxPadding) :
    (listingOutput groups).items = [] := by
  have hnone : (listingParts groups).filterMap (·.bind ReportLine.itemText?) = [] := by
    rw [(listingParts_spec groups).1, List.filterMap_eq_nil_iff]
    intro e _
    exact Option.not_isSome_iff_eq_none.1 (mt ListedEndpoint.isSome_line?_iff.1 h)
  have hsublist := (List.takeWhile_sublist (l := listingParts groups) Option.isSome).filterMap
    (·.bind ReportLine.itemText?)
  rw [hnone] at hsublist
  rw [listingOutput, ReportOutput.items_ofParts, List.sublist_nil.1 hsublist]

/-- The items of a listing that comes out whole show the endpoints of all groups. -/
theorem forall₂_standsAt {groups : List GroupListing} (h : listingWidth groups ≤ maxPadding) :
    List.Forall₂ (fun e => e.StandsAt (listingWidth groups + 2))
      (listedEndpoints groups) (listingOutput groups).items := by
  have hcomplete := complete_listingOutput_iff.2 h
  rw [listingOutput, ReportOutput.complete_ofParts, List.all_eq_true] at hcomplete
  rw [listingOutput, ReportOutput.items_ofParts, List.takeWhile_eq_self_iff.2 hcomplete,
    (listingParts_spec groups).1]
  have hstands : ∀ e ∈ listedEndpoints groups, ∃ item, e.line? (listingWidth groups) = some item ∧
      e.StandsAt (listingWidth groups + 2) item := by
    intro e he
    obtain ⟨item, hitem⟩ := Option.isSome_iff_exists.1 (ListedEndpoint.isSome_line?_iff.2 h)
    have hbytes : e.route.utf8ByteSize ≤ listingWidth groups :=
      listingWidth_le_iff.1 (Nat.le_refl _) e he
    have hlength := Nat.le_trans (length_le_utf8ByteSize e.route) hbytes
    exact ⟨item, hitem, ListedEndpoint.standsAt_of_line? hlength hitem⟩
  generalize listedEndpoints groups = endpoints, listingWidth groups = width at hstands ⊢
  induction endpoints with
  | nil => exact .nil
  | cons e endpoints ih =>
    obtain ⟨⟨item, hitem, he⟩, hrest⟩ := List.forall_mem_cons.1 hstands
    rw [List.filterMap_cons_some hitem]
    exact .cons he (ih hrest)

/-- A listing comes out whole, with the functions of all groups in one column and every route in
full in front of it, exactly when no route has more bytes than a text can be padded to.  Else it
breaks off in front of its first item. -/
theorem aligned_iff (groups : List GroupListing) :
    (Aligned groups ↔
      ∀ g ∈ groups, ∀ e ∈ g.endpoints, e.route.utf8ByteSize ≤ maxPadding) ∧
    (¬ Aligned groups →
      (listingOutput groups).complete = false ∧ (listingOutput groups).items = []) := by
  have hiff : Aligned groups ↔ listingWidth groups ≤ maxPadding :=
    ⟨fun h => complete_listingOutput_iff.1 h.1,
      fun h => ⟨complete_listingOutput_iff.2 h, forall₂_standsAt h⟩⟩
  rw [hiff]
  refine ⟨?_, fun h => ⟨?_, items_eq_nil h⟩⟩
  · rw [listingWidth_le_iff, listedEndpoints, List.forall_mem_flatMap]
  · simpa using mt complete_listingOutput_iff.1 h

/-! ## A URL that is too long -/

namespace Document

/-- Every operation of a document is listed. -/
theorem exists_listed {d : Document} {route : Route} (h : route ∈ d.routes) :
    ∃ g ∈ d.listing, (d.endpointOf route).listed ∈ g.endpoints := by
  have he : d.endpointOf route ∈ d.api.endpoints := by
    rw [api_endpoints_eq_map]
    exact List.mem_map_of_mem h
  refine ⟨_, List.mem_map_of_mem (Api.mem_groups_iff.2 ⟨_, he, rfl⟩), ?_⟩
  exact List.mem_map_of_mem (Api.mem_endpointsIn_iff.2 ⟨he, rfl⟩)

/-- The listing of a document with a URL of too many characters breaks off. -/
theorem not_aligned_of_maxPadding_lt {d : Document} {route : Route} (h : route ∈ d.routes)
    (hlong : maxPadding < route.url.length) : ¬ Aligned d.listing := by
  rintro ⟨hcomplete, -⟩
  obtain ⟨g, hg, he⟩ := exists_listed h
  have hbytes : (d.endpointOf route).listed.route.utf8ByteSize ≤ maxPadding :=
    listingWidth_le_iff.1 (complete_listingOutput_iff.1 hcomplete) _
      (List.mem_flatMap.2 ⟨g, hg, he⟩)
  have hroute : (d.endpointOf route).listed.route = route.method.name.toUpper ++ " " ++ route.url :=
    rfl
  have hlength := length_le_utf8ByteSize (d.endpointOf route).listed.route
  have hurl : route.url.length ≤ (d.endpointOf route).listed.route.length := by
    rw [hroute, String.length_append]
    exact Nat.le_add_left _ _
  omega

/-- A URL of many characters. -/
def endlessUrl (n : Nat) : String :=
  "/a/" ++ String.ofList (List.replicate n 'b')

theorem le_length_endlessUrl (n : Nat) : n ≤ (endlessUrl n).length := by
  simp [endlessUrl]

/-- A document with one operation, whose URL has more characters than a text can be padded to. -/
def endlessDocument : Document where
  paths := [(endlessUrl (maxPadding + 1), [(.get, {})])]

/-- The listing of the document breaks off. -/
theorem endlessDocument_listing_not_aligned : ¬ Aligned endlessDocument.listing := by
  have hroute : ⟨endlessUrl (maxPadding + 1), .get, {}⟩ ∈ endlessDocument.routes :=
    List.mem_cons_self
  exact not_aligned_of_maxPadding_lt hroute (le_length_endlessUrl (maxPadding + 1))

end Document

end SwaggerClient
