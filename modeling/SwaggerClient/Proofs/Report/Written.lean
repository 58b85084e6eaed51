import SwaggerClient.Proofs.Client.Layout
import SwaggerClient.Proofs.FileTree.Writing
import SwaggerClient.Proofs.Report.Grouping

/-!
# What is written

The files of a client have different names that are single components of a path, whatever the
URLs of a document are.  So all of them go into the output directory, none takes the place of
another one, and what is written there is what would be shown.
-/

namespace SwaggerClient

variable {group : String}

/-! ## File names -/

theorem UrlTemplate.slash_not_mem_group (url : String) : '/' ∉ (UrlTemplate.group url).toList := by
  rw [UrlTemplate.group]
  cases hfind : (Text.split '/' url).find? fun segment => !segment.isEmpty with
  | none => decide
  | some segment =>
    obtain ⟨piece, hpiece, rfl⟩ := List.mem_map.1 (List.mem_of_find?_eq_some hfind)
    rw [Option.getD_some, String.toList_ofList]
    exact fun h => (Text.ne_and_mem_of_mem_splitOn hpiece h).1 rfl

theorem isFileName_moduleFileName (h : '/' ∉ group.toList) :
    Path.IsFileName (moduleFileName group) := by
  have hlong : ∀ name : String, name.toList.length < 6 → moduleFileName group ≠ name := by
    rintro name hshort rfl
    rw [toList_moduleFileName, List.length_append] at hshort
    have hending : "Api.ts".toList.length = 6 := by decide
    omega
  refine ⟨?_, hlong _ (by decide), hlong _ (by decide), hlong _ (by decide)⟩
  rw [toList_moduleFileName, List.mem_append, not_or]
  exact ⟨h, by decide⟩

namespace Api

variable (api : Api) (options : ClientOptions)

/-- There is one file for each group, in the order of the groups. -/
theorem map_fst_files : (api.files options).map Prod.fst = api.groups.map moduleFileName := by
  rw [← api.keys_groupSources options.errorStyle, Dictionary.keys, files, List.map_map,
    List.map_map]
  rfl

theorem nodup_map_fst_files : ((api.files options).map Prod.fst).Nodup := by
  rw [map_fst_files]
  exact api.nodup_groups.map moduleFileName_injective

end Api

namespace Document

variable {d : Document} {options : ClientOptions}

theorem slash_not_mem_of_mem_groups (hg : group ∈ d.api.groups) : '/' ∉ group.toList := by
  obtain ⟨e, he, rfl⟩ := Api.mem_groups_iff.1 hg
  rw [api_endpoints_eq_map] at he
  obtain ⟨route, -, rfl⟩ := List.mem_map.1 he
  exact UrlTemplate.slash_not_mem_group route.url

theorem isFileName_of_mem_files {file : String × String} (h : file ∈ d.api.files options) :
    Path.IsFileName file.1 := by
  have hname : file.1 ∈ d.api.groups.map moduleFileName :=
    d.api.map_fst_files options ▸ List.mem_map_of_mem h
  obtain ⟨group, hg, heq⟩ := List.mem_map.1 hname
  exact heq ▸ isFileName_moduleFileName (slash_not_mem_of_mem_groups hg)

end Document

/-! ## Files in a directory -/

namespace FileTree

/-- Named files by their locations in a directory. -/
def locatedIn (dir : String) (files : List (String × String)) : Dictionary FileLocation String :=
  files.map fun (name, content) => (FileLocation.ofPath dir ++ [name], content)

/-- Whether a tree is another one with named files put into a directory: they have their
content, and all other files are as before. -/
structure Overridden (t : FileTree) (dir : String) (files : List (String × String))
    (t' : FileTree) : Prop where
  get? : ∀ location, t'.files.get? location =
    ((locatedIn dir files).get? location).or (t.files.get? location)
  read : ∀ file ∈ files, t'.read (Path.join dir file.1) = .ok file.2

variable {t t' : FileTree} {dir : String} {files : List (String × String)}

theorem located_join (dir : String) (h : ∀ file ∈ files, Path.IsFileName file.1) :
    located (files.map fun (name, content) => (Path.join dir name, content)) =
      locatedIn dir files := by
  rw [located, List.map_map]
  exact List.map_congr_left fun file hfile =>
    Prod.ext (FileLocation.ofPath_join (h file hfile) dir) rfl

theorem nodup_keys_locatedIn (hd : (files.map Prod.fst).Nodup) :
    (locatedIn dir files).keys.Nodup := by
  have hkeys : (locatedIn dir files).keys =
      (files.map Prod.fst).map fun name => FileLocation.ofPath dir ++ [name] := by
    rw [locatedIn, Dictionary.keys, List.map_map, List.map_map]
    rfl
  rw [hkeys]
  exact hd.map fun name name' h => by simpa using h

theorem Writes.overridden (hnames : ∀ file ∈ files, Path.IsFileName file.1)
    (hd : (files.map Prod.fst).Nodup)
    (h : Writes t (files.map fun (name, content) => (Path.join dir name, content)) t') :
    t.Overridden dir files t' := by
  have hlocated := located_join dir hnames
  have hkeys : (located _).keys.Nodup := hlocated ▸ nodup_keys_locatedIn hd
  refine ⟨fun location => ?_, fun file hfile => ?_⟩
  · rw [h.get?_files hkeys, hlocated]
  · exact h.read hkeys (List.mem_map.2 ⟨file, hfile, rfl⟩)

end FileTree

/-! ## The files of a client -/

/-- Writing the files of a client does what showing them says, and only in the output
directory.  Their names are different and hold no slash, so each file goes one step into that
directory, in the order of the groups.  When all are written, the tree is the one before with
them in it.  When one fails, those before it are in the tree, and all other files are as they
were. -/
theorem Document.write_overrides (d : Document) (options : ClientOptions) (dir : String)
    (t : FileTree) :
    ((d.api.files options).map Prod.fst).Nodup ∧
    (d.api.files options).map Prod.fst = d.api.groups.map moduleFileName ∧
    (∀ file ∈ d.api.files options, '/' ∉ file.1.toList ∧
      FileLocation.ofPath (Path.join dir file.1) = FileLocation.ofPath dir ++ [file.1]) ∧
    match d.api.write options dir t with
    | (t', .ok written) =>
      written = (d.api.files options).map (fun file => Path.join dir file.1) ∧
      t.Overridden dir (d.api.files options) t'
    | (t', .error failure) =>
      ∃ before file after, d.api.files options = before ++ file :: after ∧
        t.Overridden dir before t' ∧
        t'.write (Path.join dir file.1) file.2 = .error failure := by
  have hnames : ∀ file ∈ d.api.files options, Path.IsFileName file.1 := fun file hfile =>
    isFileName_of_mem_files hfile
  have hd := d.api.nodup_map_fst_files options
  refine ⟨hd, d.api.map_fst_files options, fun file hfile => ?_, ?_⟩
  · exact ⟨(hnames file hfile).slash_not_mem, FileLocation.ofPath_join (hnames file hfile) dir⟩
  rw [Api.write]
  rcases hall : t.writeAll (d.api.outputFiles options dir) with ⟨t', outcome⟩
  cases outcome with
  | ok _ =>
    refine ⟨?_, (FileTree.writes_of_writeAll_ok hall).overridden hnames hd⟩
    rw [Api.outputFiles, List.map_map]
    rfl
  | error failure =>
    obtain ⟨before, file, after, hfiles, hwrites, hfails⟩ :=
      FileTree.writes_of_writeAll_error hall
    obtain ⟨before, rest, hsplit, rfl, hrest⟩ := List.map_eq_append_iff.1 hfiles
    obtain ⟨file, after, rfl, rfl, -⟩ := List.map_eq_cons_iff.1 hrest
    rw [hsplit] at hnames hd
    rw [List.map_append] at hd
    refine ⟨before, file, after, hsplit, ?_, hfails⟩
    exact hwrites.overridden (fun file hfile => hnames file (List.mem_append_left _ hfile))
      (List.nodup_append'.1 hd).1

end SwaggerClient
