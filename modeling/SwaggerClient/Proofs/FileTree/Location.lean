import SwaggerClient.FileTree.Basic
import SwaggerClient.Proofs.Text.Split

/-!
# The locations of paths

Where a path leads does not depend on the files, which only decide whether one gets there.  The
path of a file in a directory leads one step further than the path of the directory.
-/

namespace SwaggerClient

/-! ## Components -/

namespace Path

variable {dir name : String}

/-- A text that names a file in a directory: one component that is a step of its own. -/
structure IsFileName (name : String) : Prop where
  slash_not_mem : '/' ∉ name.toList
  ne_empty : name ≠ ""
  ne_dot : name ≠ "."
  ne_dots : name ≠ ".."

theorem components_of_not_mem (h : '/' ∉ name.toList) : components name = [name] := by
  rw [components, Text.split, Text.splitOn_of_not_mem h, List.map_singleton, String.ofList_toList]

theorem components_slash (front back : String) :
    components (front ++ "/" ++ back) = components front ++ components back := by
  simp [components, Text.split, Text.splitOn_append_cons]

theorem isAbsolute_of_not_mem (h : '/' ∉ name.toList) : isAbsolute name = false := by
  rw [isAbsolute, beq_eq_false_iff_ne]
  exact fun hhead => h (List.mem_of_head? hhead)

/-- A file in a directory has the path of the directory in front of its name, with a slash
between them where there is none yet. -/
theorem join_eq (h : '/' ∉ name.toList) :
    join dir name =
      if dir = "" then name
      else if dir.toList.getLast? = some '/' then dir ++ name
      else dir ++ "/" ++ name := by
  simp [join, isAbsolute_of_not_mem h]

end Path

/-! ## Locations -/

namespace FileLocation

variable {name : String}

/-- Where a path leads. -/
def ofPath (path : String) : FileLocation :=
  (Path.components path).foldl step (start path)

theorem step_empty (location : FileLocation) : step location "" = location := rfl

theorem step_of_isFileName (h : Path.IsFileName name) (location : FileLocation) :
    step location name = location ++ [name] := by
  simp [step, h.ne_empty, h.ne_dot, h.ne_dots]

theorem start_slash (front back : String) :
    start (front ++ "/" ++ back) = start (front ++ "/") := by
  simp [start, Path.isAbsolute, List.head?_append]

theorem start_append_slash {front : String} (h : front ≠ "") :
    start (front ++ "/") = start front := by
  obtain ⟨c, cs, hfront⟩ := List.exists_cons_of_ne_nil (mt String.toList_eq_nil_iff.1 h)
  simp [start, Path.isAbsolute, hfront]

/-- What stands behind the last slash is the last step. -/
theorem ofPath_slash (front : String) {back : String} (h : '/' ∉ back.toList) :
    ofPath (front ++ "/" ++ back) =
      step ((Path.components front).foldl step (start (front ++ "/"))) back := by
  rw [ofPath, start_slash, Path.components_slash, Path.components_of_not_mem h, List.foldl_concat]

/-- The path of a file in a directory leads one step further than that of the directory. -/
theorem ofPath_join (h : Path.IsFileName name) (dir : String) :
    ofPath (Path.join dir name) = ofPath dir ++ [name] := by
  rw [Path.join_eq h.slash_not_mem]
  split
  next hempty =>
    have hname : ofPath name = step [] name := by
      rw [ofPath, start, Path.isAbsolute_of_not_mem h.slash_not_mem,
        Path.components_of_not_mem h.slash_not_mem]
      rfl
    rw [hname, step_of_isFileName h, hempty]
    rfl
  next hdir =>
    split
    next hlast =>
      obtain ⟨front, hfront⟩ := List.getLast?_eq_some_iff.1 hlast
      obtain rfl : dir = String.ofList front ++ "/" := by
        rw [← String.toList_inj, hfront]
        simp
      have hsame : String.ofList front ++ "/" = String.ofList front ++ "/" ++ "" := by simp
      rw [ofPath_slash _ h.slash_not_mem, step_of_isFileName h, hsame, ofPath_slash _ (by simp),
        step_empty]
      simp
    next =>
      rw [ofPath_slash _ h.slash_not_mem, step_of_isFileName h, start_append_slash hdir]
      rfl

end FileLocation

namespace FileTree

variable {t t' : FileTree} {location location' : FileLocation} {components : List String}

theorem eq_foldl_of_follow (h : t.follow location components = .ok location') :
    location' = components.foldl FileLocation.step location := by
  induction components generalizing location with
  | nil => exact (Except.ok.inj h).symm
  | cons component components ih =>
    unfold follow at h
    split at h
    · exact ih h
    · split at h <;> cases h

theorem eq_ofPath_of_locate {path : String} (h : t.locate path = .ok location) :
    location = FileLocation.ofPath path := by
  unfold locate at h
  split at h
  · cases h
  · exact eq_foldl_of_follow h

/-- Where there are at least the same directories, one gets as far. -/
theorem follow_mono (hmono : ∀ dir, t.isDirectory dir → t'.isDirectory dir)
    (h : t.follow location components = .ok location') :
    t'.follow location components = .ok location' := by
  induction components generalizing location with
  | nil => exact h
  | cons component components ih =>
    unfold follow at h ⊢
    split at h
    next hdir =>
      rw [if_pos (hmono _ hdir)]
      exact ih h
    next => split at h <;> cases h

theorem locate_mono {path : String} (hmono : ∀ dir, t.isDirectory dir → t'.isDirectory dir)
    (h : t.locate path = .ok location) : t'.locate path = .ok location := by
  unfold locate at h ⊢
  split at h
  · cases h
  next hne =>
    rw [if_neg hne]
    exact follow_mono hmono h

end FileTree

end SwaggerClient
