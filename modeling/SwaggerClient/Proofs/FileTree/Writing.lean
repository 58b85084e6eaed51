import SwaggerClient.Proofs.Dictionary
import SwaggerClient.Proofs.FileTree.Location

/-!
# Writing files

Writing a file changes the file at the location of its path and no other one, and removes
nothing.  So files written one after the other to different locations are all there in the end,
and where writing stops half-way, those before the failure are.
-/

namespace SwaggerClient.FileTree

variable {t t₁ t' : FileTree} {files : List (String × String)} {path content : String}
  {location : FileLocation}

/-! ## Nothing is removed -/

/-- Whether a tree has all files and known directories of another one. -/
structure Extends (t t' : FileTree) : Prop where
  files : t.files.keys ⊆ t'.files.keys
  directories : t.directories ⊆ t'.directories

theorem Extends.refl (t : FileTree) : t.Extends t :=
  ⟨List.Subset.refl _, List.Subset.refl _⟩

theorem Extends.trans (h : t.Extends t₁) (h' : t₁.Extends t') : t.Extends t' :=
  ⟨List.Subset.trans h.files h'.files, List.Subset.trans h.directories h'.directories⟩

theorem isDirectory_iff :
    t.isDirectory location ↔ FileLocation.isAbove location ∨ location ∈ t.directories ∨
      ∃ file ∈ t.files.keys, location <+: file ∧ location ≠ file := by
  simp [isDirectory, Dictionary.keys, or_assoc]

theorem Extends.isDirectory (h : t.Extends t') (hdir : t.isDirectory location) :
    t'.isDirectory location := by
  rw [isDirectory_iff] at hdir ⊢
  rcases hdir with habove | hknown | ⟨file, hfile, hbelow⟩
  · exact .inl habove
  · exact .inr (.inl (h.directories hknown))
  · exact .inr (.inr ⟨file, h.files hfile, hbelow⟩)

theorem Extends.locate (h : t.Extends t') (hlocate : t.locate path = .ok location) :
    t'.locate path = .ok location :=
  locate_mono (fun _ => h.isDirectory) hlocate

/-! ## One file -/

theorem makeDirectories_spec {components : List String}
    (h : t.makeDirectories location components = .ok t') : t.Extends t' ∧ t'.files = t.files := by
  induction components generalizing t location with
  | nil =>
    cases h
    exact ⟨.refl _, rfl⟩
  | cons component components ih =>
    simp only [makeDirectories] at h
    split at h
    · exact ih h
    · split at h
      · cases h
      · split at h
        · cases h
        · obtain ⟨hextends, hfiles⟩ := ih h
          have hstep : t.Extends
              { t with directories := t.directories ++ [location.step component] } :=
            ⟨List.Subset.refl _, List.subset_append_left _ _⟩
          exact ⟨hstep.trans hextends, hfiles⟩

theorem makeDirectory_spec (h : t.makeDirectory path = .ok t') :
    t.Extends t' ∧ t'.files = t.files := by
  unfold makeDirectory at h
  split at h
  · cases h
    exact ⟨.refl _, rfl⟩
  · split at h
    · cases h
    · exact makeDirectories_spec h

theorem store_spec (h : t.store path content = .ok t') :
    t.locate path = .ok (FileLocation.ofPath path) ∧
      t' = { t with files := t.files.set (FileLocation.ofPath path) content } := by
  unfold store at h
  split at h
  · cases h
  · split at h
    · cases h
    · cases h
    next location hlocate =>
      split at h
      · cases h
      · split at h
        · cases h
        · cases h
          exact ⟨eq_ofPath_of_locate hlocate ▸ hlocate, eq_ofPath_of_locate hlocate ▸ rfl⟩

/-- A file that is written is at its path, and all other files are as before. -/
theorem write_spec (h : t.write path content = .ok t') :
    t.Extends t' ∧ t'.locate path = .ok (FileLocation.ofPath path) ∧
      ∀ location, t'.files.get? location =
        if location == FileLocation.ofPath path then some content else t.files.get? location := by
  unfold write at h
  split at h
  · cases h
  next t₁ hdirectory =>
    obtain ⟨hmade, hfiles⟩ := makeDirectory_spec hdirectory
    cases hstore : t₁.store path content with
    | error obstacle => simp [hstore, Except.mapError] at h
    | ok t₂ =>
      obtain ⟨hlocate, rfl⟩ := store_spec hstore
      simp only [hstore, Except.mapError, Except.ok.injEq] at h
      subst h
      have hstored : t₁.Extends
          { t₁ with files := t₁.files.set (FileLocation.ofPath path) content } :=
        ⟨Dictionary.keys_subset_keys_set _ _ _, List.Subset.refl _⟩
      refine ⟨hmade.trans hstored, hstored.locate hlocate, fun location => ?_⟩
      rw [Dictionary.get?_set, hfiles]

/-! ## Several files -/

/-- A tree becomes another one when files are written one after the other. -/
inductive Writes : FileTree → List (String × String) → FileTree → Prop
  | nil (t : FileTree) : Writes t [] t
  | cons {t t₁ t' : FileTree} {path content : String} {files : List (String × String)} :
    t.write path content = .ok t₁ → Writes t₁ files t' → Writes t ((path, content) :: files) t'

theorem writes_of_writeAll_ok (h : t.writeAll files = (t', .ok ())) : Writes t files t' := by
  induction files generalizing t with
  | nil =>
    cases h
    exact .nil _
  | cons file files ih =>
    simp only [writeAll] at h
    split at h
    · cases h
    next hwrite => exact .cons hwrite (ih h)

/-- Where writing fails, all files before the one that fails are written, and no other one. -/
theorem writes_of_writeAll_error {failure : WriteFailure}
    (h : t.writeAll files = (t', .error failure)) :
    ∃ before file after, files = before ++ file :: after ∧ Writes t before t' ∧
      t'.write file.1 file.2 = .error failure := by
  induction files generalizing t with
  | nil => cases h
  | cons file files ih =>
    simp only [writeAll] at h
    split at h
    next hwrite =>
      cases h
      exact ⟨[], file, files, rfl, .nil _, hwrite⟩
    next hwrite =>
      obtain ⟨before, failing, after, rfl, hwrites, hfails⟩ := ih h
      exact ⟨file :: before, failing, after, rfl, .cons hwrite hwrites, hfails⟩

/-- Files by the locations of their paths. -/
def located (files : List (String × String)) : Dictionary FileLocation String :=
  files.map fun (path, content) => (FileLocation.ofPath path, content)

namespace Writes

theorem toExtends (h : Writes t files t') : t.Extends t' := by
  induction h with
  | nil => exact .refl _
  | cons hwrite _ ih => exact (write_spec hwrite).1.trans ih

/-- Files written to different locations have their content, and all other files are as
before. -/
theorem get?_files (h : Writes t files t') (hd : (located files).keys.Nodup)
    (location : FileLocation) :
    t'.files.get? location = ((located files).get? location).or (t.files.get? location) := by
  induction h with
  | nil => rfl
  | @cons t t₁ t' path content files hwrite _ ih =>
    obtain ⟨hfirst, hd⟩ := List.nodup_cons.1 hd
    have hnew : FileLocation.ofPath path ∉ (located files).keys := hfirst
    have hcons : located ((path, content) :: files) =
      (FileLocation.ofPath path, content) :: located files := rfl
    rw [ih hd, (write_spec hwrite).2.2, hcons, Dictionary.get?_cons]
    split
    next heq =>
      rw [beq_iff_eq.1 heq, Dictionary.get?_eq_none_iff.2 hnew]
      rfl
    next => rfl

theorem locate (h : Writes t files t') (hmem : (path, content) ∈ files) :
    t'.locate path = .ok (FileLocation.ofPath path) := by
  induction h with
  | nil => cases hmem
  | cons hwrite hwrites ih =>
    rcases List.mem_cons.1 hmem with heq | hmem
    · cases heq
      exact hwrites.toExtends.locate (write_spec hwrite).2.1
    · exact ih hmem

/-- Files written to different locations can be read at their paths. -/
theorem read (h : Writes t files t') (hd : (located files).keys.Nodup)
    (hmem : (path, content) ∈ files) : t'.read path = .ok content := by
  have hcontent : t'.files.get? (FileLocation.ofPath path) = some content := by
    have hlocated : (FileLocation.ofPath path, content) ∈ located files :=
      List.mem_map.2 ⟨_, hmem, rfl⟩
    rw [h.get?_files hd, Dictionary.get?_of_mem hd hlocated]
    rfl
  rw [FileTree.read, h.locate hmem]
  simp only [bind, Except.bind, hcontent]
  rfl

end Writes

end SwaggerClient.FileTree
