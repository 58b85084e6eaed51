import SwaggerClient.Proofs.Api.Groups
import SwaggerClient.Proofs.Client.SelfContained
import SwaggerClient.Proofs.Code.DocComment

/-!
# How a module file is laid out

A module file is cut into lines and written again line by line, with an empty line in every gap.
The code of an endpoint begins with a documentation comment or a type alias and ends with the brace
that closes its function, so cutting away empty lines at its end takes nothing else, and the empty
lines of the gaps are the only ones that are added.
-/

namespace SwaggerClient

namespace Code

variable {c : Char} {front : List Char}

/-! ## Code that is already written -/

/-- Lines become fragments that write each of them again. -/
theorem charsOfAll_lines (text : String) :
    charsOfAll 0 ((Text.lines text).map .line) =
      (Text.lineList text.toList).flatMap (· ++ ['\n']) := by
  rw [Text.lines]
  induction Text.lineList text.toList with
  | nil => rfl
  | cons line lines ih =>
    rw [List.map_cons, List.map_cons, charsOfAll_cons, chars_line, String.toList_ofList,
      textAt_zero, ih, List.flatMap_cons]

/-- Code whose last line is ended and not empty is written as it is, without carriage returns. -/
theorem charsOfAll_verbatim {source : String} (hs : source.toList = front ++ [c] ++ ['\n'])
    (hr : c ≠ '\r') (hn : c ≠ '\n') :
    charsOfAll 0 (verbatim source) = Text.dropReturns source.toList := by
  have htrim : (Text.trimEndLines source).toList = front ++ [c] := by
    simp [Text.trimEndLines, hs, hn]
  rw [verbatim, charsOfAll_lines, htrim, ← Text.lineList_concat_newline hr hn,
    Text.flatMap_lineList, ← hs]

theorem separated_eq (elements : List (List Fragment)) :
    separated elements = ['\n'].intercalate (elements.map (charsOfAll 0)) := by
  induction elements using separated.induct with
  | case1 => rfl
  | case2 element => simp [separated]
  | case3 element elements hne ih =>
    obtain ⟨other, others, rfl⟩ := List.exists_cons_of_ne_nil hne
    rw [separated, ih]
    · simp
    · exact hne

/-! ## The ends of code -/

/-- An alias begins with its documentation or with its keyword. -/
theorem head?_alias (a : TypeAlias) :
    ∃ c ∈ ['/', 'e'], (charsOfAll 0 a.fragments).head? = some c := by
  cases hdoc : a.doc with
  | some doc =>
    exact ⟨'/', by decide, by simp [TypeAlias.fragments, docFragments, hdoc, head?_docAt_zero]⟩
  | none =>
    obtain ⟨rest, hrest⟩ : ∃ rest, s!"export type {a.name} = {a.type};".toList = 'e' :: rest :=
      ⟨_, by simp only [String.toList_append]; rfl⟩
    refine ⟨'e', by decide, ?_⟩
    simp [TypeAlias.fragments, docFragments, hdoc, hrest, textAt_zero]

/-- The text of a function ends with its closing brace on a line of its own. -/
theorem suffix_function (f : Function) : ['}', '\n'] <:+ charsOfAll 0 f.fragments := by
  have hbrace : textAt 0 "\x7d".toList = ['}', '\n'] := rfl
  rw [Function.fragments, charsOfAll_append, charsOfAll_cons, chars_block, hbrace]
  simp only [charsOfAll_nil, List.append_nil, ← List.append_assoc]
  exact List.suffix_append _ _

end Code

namespace ModulePart

variable (part : ModulePart) (style : ErrorStyle)

theorem exists_declarations : ∃ t ts, part.declarations = t :: ts :=
  List.exists_cons_of_ne_nil (by simp [declarations, Endpoint.declarations])

/-- The code of a part begins and ends with lines that are not empty. -/
theorem exists_charsOfAll_fragments :
    ∃ first middle, first ∈ ['/', 'e'] ∧
      Code.charsOfAll 0 (part.fragments style) = first :: middle ++ ['}'] ++ ['\n'] := by
  obtain ⟨t, ts, hdeclarations⟩ := part.exists_declarations
  obtain ⟨first, hfirst, hhead⟩ := Code.head?_alias t.alias
  obtain ⟨rest, hrest⟩ := List.head?_eq_some_iff.1 hhead
  obtain ⟨front, hfront⟩ := Code.suffix_function (part.endpoint.function style)
  refine ⟨first, rest ++ Code.charsOfAll 0 (ts.flatMap fun t => t.alias.fragments) ++ front,
    hfirst, ?_⟩
  rw [fragments, hdeclarations, List.flatMap_cons, Code.charsOfAll_append, Code.charsOfAll_append,
    hrest, ← hfront]
  simp

end ModulePart

/-! ## Files -/

/-- The lines above the declarations of a module: the import of `axios`, or the lines of the given
code without the empty ones at its end. -/
def preambleLines : Option String → List String
  | none => ["import axios from 'axios'"]
  | some code => Text.lines (Text.trimEndLines code)

/-- The text of a file with lines at its top and fragments below: an empty line stands behind the
lines at the top and between two fragments, and the fragments have no carriage returns in front of
line feeds. -/
def fileText (top fragments : List String) : String :=
  String.ofList (top.flatMap (fun line => line.toList ++ ['\n']) ++ '\n' ::
    ['\n'].intercalate (fragments.map fun fragment => Text.dropReturns fragment.toList))

/-- Whether the first and the last line of a text hold something and the last line is ended, so that
an empty line in front of the text or behind it belongs to the gap. -/
def Bordered (cs : List Char) : Prop :=
  ∃ first middle last, first ≠ '\n' ∧ last ≠ '\n' ∧ cs = first :: middle ++ [last, '\n']

theorem charsOfAll_modulePreamble (preamble : Option String) :
    Code.charsOfAll 0 (modulePreamble preamble) =
      (preambleLines preamble).flatMap fun line => line.toList ++ ['\n'] := by
  cases preamble with
  | none => decide
  | some code =>
    rw [modulePreamble, Code.verbatim, Code.charsOfAll_lines, preambleLines, Text.lines,
      List.flatMap_map]
    simp

/-- Carriage returns are dropped inside the code of a part, not at its ends. -/
theorem ModulePart.bordered_render (part : ModulePart) (style : ErrorStyle) :
    Bordered (Text.dropReturns (Code.render (part.fragments style)).toList) := by
  obtain ⟨first, middle, hfirst, hchars⟩ := part.exists_charsOfAll_fragments style
  have hr : first ≠ '\r' := by
    rintro rfl
    exact absurd hfirst (by decide)
  have hn : first ≠ '\n' := by
    rintro rfl
    exact absurd hfirst (by decide)
  refine ⟨first, Text.dropReturns middle, '}', hn, by decide, ?_⟩
  have hbrace : Text.dropReturns (middle ++ '}' :: ['\n']) = Text.dropReturns middle ++ ['}', '\n'] :=
    Text.dropReturns_append_cons (by decide) _
  rw [Code.render, String.toList_ofList, hchars, List.append_assoc, List.cons_append,
    Text.dropReturns_cons fun h => absurd h hr]
  simpa using hbrace

theorem ModulePart.charsOfAll_render (part : ModulePart) (style : ErrorStyle) :
    Code.charsOfAll 0 (Code.verbatim (Code.render (part.fragments style))) =
      Text.dropReturns (Code.render (part.fragments style)).toList := by
  obtain ⟨first, middle, -, hchars⟩ := part.exists_charsOfAll_fragments style
  have hsource : (Code.render (part.fragments style)).toList = first :: middle ++ ['}'] ++ ['\n'] := by
    rw [Code.render, String.toList_ofList, hchars]
  exact Code.charsOfAll_verbatim hsource (by decide) (by decide)

/-- A module is laid out as a file of its parts. -/
theorem moduleText_parts (preamble : Option String) (style : ErrorStyle) {parts : List ModulePart}
    (hne : parts ≠ []) :
    moduleText preamble (parts.map fun part => Code.render (part.fragments style)) =
      fileText (preambleLines preamble)
        (parts.map fun part => Code.render (part.fragments style)) := by
  have hbody : (parts.map fun part => Code.render (part.fragments style)).isEmpty = false := by
    simpa using hne
  have hparts : parts.map (fun part =>
        Code.charsOfAll 0 (Code.verbatim (Code.render (part.fragments style)))) =
      parts.map fun part => Text.dropReturns (Code.render (part.fragments style)).toList :=
    List.map_congr_left fun part _ => part.charsOfAll_render style
  simp only [moduleText, Code.Module.render, fileText, Code.separated_eq, List.map_map,
    Function.comp_def, hparts, List.isEmpty_map, List.flatMap_cons, List.flatMap_nil,
    charsOfAll_modulePreamble]
  simp [hne]

theorem Api.moduleParts_ne_nil {api : Api} {group : String} (hg : group ∈ api.groups) :
    api.moduleParts group ≠ [] := by
  obtain ⟨e, he, rfl⟩ := mem_groups_iff.1 hg
  intro hnil
  have hendpoints := api.endpoints_parts [] (api.endpointsIn e.group)
  rw [← moduleParts, hnil, List.map_nil] at hendpoints
  have hmem : e ∈ api.endpointsIn e.group := mem_endpointsIn_iff.2 ⟨he, rfl⟩
  rw [← hendpoints] at hmem
  cases hmem

theorem toList_moduleFileName (group : String) :
    (moduleFileName group).toList = group.toList ++ "Api.ts".toList := by
  simp [moduleFileName, fileExtension]

theorem moduleFileName_injective : Function.Injective moduleFileName := by
  intro group group' h
  have hlist := congrArg String.toList h
  rw [toList_moduleFileName, toList_moduleFileName] at hlist
  exact String.toList_inj.1 (List.append_cancel_right hlist)

namespace Api

variable (api : Api) (options : ClientOptions)

/-- The text of the file of a group. -/
def groupText (group : String) : String :=
  fileText (preambleLines options.preamble) (api.groupSource options.errorStyle group)

theorem files_eq_map :
    api.files options = api.groups.map fun group =>
      (moduleFileName group, api.groupText options group) := by
  rw [files, groupSources, List.map_map]
  refine List.map_congr_left fun group hg => ?_
  exact congrArg (moduleFileName group, ·) (moduleText_parts _ _ (moduleParts_ne_nil hg))

/-- Files of different groups have different names. -/
theorem mem_files_iff {group : String} (hg : group ∈ api.groups) (text : String) :
    (moduleFileName group, text) ∈ api.files options ↔ text = api.groupText options group := by
  rw [files_eq_map, List.mem_map]
  constructor
  · rintro ⟨group', -, hentry⟩
    obtain ⟨hname, rfl⟩ := Prod.mk.inj hentry
    rw [moduleFileName_injective hname]
  · rintro rfl
    exact ⟨group, hg, rfl⟩

/-- There is a fragment in each group, and each one begins and ends with a line that holds
something. -/
theorem bordered_of_mem_groupSources {style : ErrorStyle} {entry : String × List String}
    (he : entry ∈ api.groupSources style) :
    entry.2 ≠ [] ∧
      ∀ fragment ∈ entry.2, Bordered (Text.dropReturns fragment.toList) := by
  obtain ⟨group, hg, rfl⟩ := List.mem_map.1 he
  refine ⟨by simpa [groupSource] using moduleParts_ne_nil hg, fun fragment hf => ?_⟩
  obtain ⟨part, -, rfl⟩ := List.mem_map.1 hf
  exact part.bordered_render style

end Api

/-- The files are those of the groups, in order, and each group has one file under its name.  It
holds the lines at the top, an empty line, and the fragments of the group in order with an empty
line between two of them.  There is a fragment in each group, every fragment stands in the file as
it is but for carriage returns in front of line feeds, and neither begins nor ends with an empty
line. -/
theorem Api.files_layout (api : Api) (options : ClientOptions) :
    (api.files options = (api.groupSources options.errorStyle).map fun (group, fragments) =>
      (moduleFileName group, fileText (preambleLines options.preamble) fragments)) ∧
    (∀ group ∈ api.groups, ∀ text : String,
      (moduleFileName group, text) ∈ api.files options ↔
        text = fileText (preambleLines options.preamble)
          (api.groupSource options.errorStyle group)) ∧
    ∀ entry ∈ api.groupSources options.errorStyle, entry.2 ≠ [] ∧
      ∀ fragment ∈ entry.2, Bordered (Text.dropReturns fragment.toList) := by
  refine ⟨?_, fun group hg text => ?_, fun entry he => ?_⟩
  · rw [files_eq_map, groupSources, List.map_map]
    rfl
  · exact api.mem_files_iff options hg text
  · exact api.bordered_of_mem_groupSources he

end SwaggerClient
