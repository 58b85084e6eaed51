import Mathlib.Data.List.Induction
import Mathlib.Data.List.Nodup
import Mathlib.Data.List.Perm.Subperm
import SwaggerClient.Dictionary

/-!
# Looking up and setting keys

When a dictionary has a key and what it has for it, before and after a key is set.  A dictionary
made of entries has their keys in the order in which they first come, and for each the last value.
-/

namespace SwaggerClient

section Keys

variable {κ : Type} [BEq κ] [LawfulBEq κ]

/-- One more element comes at the end, unless it is there already. -/
theorem eraseDups_concat (keys : List κ) (key : κ) :
    (keys ++ [key]).eraseDups =
      if key ∈ keys then keys.eraseDups else keys.eraseDups ++ [key] := by
  rw [List.eraseDups_append]
  by_cases h : key ∈ keys <;> simp [List.removeAll, h, List.eraseDups_cons]

theorem nodup_eraseDups (keys : List κ) : keys.eraseDups.Nodup := by
  induction keys using List.reverseRecOn with
  | nil => exact List.nodup_nil
  | append_singleton keys key ih =>
    rw [eraseDups_concat]
    split
    next => exact ih
    next hnew =>
      rw [← List.concat_eq_append]
      exact ih.concat (mt List.mem_eraseDups.1 hnew)

end Keys

namespace Dictionary

variable {κ α : Type} [BEq κ] [LawfulBEq κ] {d : Dictionary κ α} {key : κ} {value : α}

theorem mem_keys_iff : key ∈ d.keys ↔ (d.get? key).isSome := by
  simp only [keys, get?, List.mem_map, List.lookup_isSome_iff, beq_iff_eq]
  exact exists_congr fun p => and_congr_right fun _ => eq_comm

theorem get?_eq_none_iff : d.get? key = none ↔ key ∉ d.keys := by
  rw [mem_keys_iff, Option.not_isSome_iff_eq_none]

theorem mem_of_get? (h : d.get? key = some value) : (key, value) ∈ d := by
  obtain ⟨before, after, rfl, -⟩ := List.lookup_eq_some_iff.1 h
  simp

theorem mem_keys_of_get? (h : d.get? key = some value) : key ∈ d.keys :=
  mem_keys_iff.2 (by simp [h])

omit [LawfulBEq κ] in
theorem get?_cons (key k : κ) (value : α) (d : Dictionary κ α) :
    get? ((key, value) :: d) k = if k == key then some value else d.get? k := by
  rw [get?, List.lookup_cons]
  cases k == key <;> rfl

/-- What is found for a key is its value, when no other entry has the key. -/
theorem get?_of_mem (hd : d.keys.Nodup) (h : (key, value) ∈ d) : d.get? key = some value := by
  induction d with
  | nil => cases h
  | cons entry d ih =>
    obtain ⟨hnew, hd⟩ := List.nodup_cons.1 hd
    rw [get?_cons]
    rcases List.mem_cons.1 h with rfl | h
    · simp
    · have hne : key ≠ entry.1 := fun heq => hnew (heq ▸ List.mem_map_of_mem h)
      rw [if_neg (by simpa using hne)]
      exact ih hd h

/-- Neither the order of the entries nor other entries change what is found for a key, as long as
the keys are distinct. -/
theorem get?_of_perm_append {d' other : Dictionary κ α} (hperm : d'.Perm (d ++ other))
    (hd : d'.keys.Nodup) (hkey : key ∉ other.keys) : d'.get? key = d.get? key := by
  cases hvalue : d.get? key with
  | some value =>
    have hmem : (key, value) ∈ d' := hperm.mem_iff.2 (List.mem_append_left _ (mem_of_get? hvalue))
    exact get?_of_mem hd hmem
  | none =>
    have hkeys : d'.keys.Perm (d.keys ++ other.keys) := by
      simpa [keys] using hperm.map Prod.fst
    rw [get?_eq_none_iff, hkeys.mem_iff, List.mem_append, not_or]
    exact ⟨get?_eq_none_iff.1 hvalue, hkey⟩

/-- Setting a key changes what is found for it and for no other key. -/
theorem get?_set (d : Dictionary κ α) (key : κ) (value : α) (k : κ) :
    (d.set key value).get? k = if k == key then some value else d.get? k := by
  induction d with
  | nil => exact get?_cons key k value []
  | cons entry d ih =>
    obtain ⟨k', value'⟩ := entry
    rw [set]
    split
    next heq =>
      rw [get?_cons, get?_cons, beq_iff_eq.1 heq]
      split <;> rfl
    next hne =>
      rw [get?_cons, get?_cons, ih]
      by_cases h : k = k'
      · subst h
        simp [hne]
      · simp [h]

theorem keys_subset_keys_set (d : Dictionary κ α) (key : κ) (value : α) :
    d.keys ⊆ (d.set key value).keys := by
  intro k hk
  rw [mem_keys_iff, get?_set]
  split
  · rfl
  · exact mem_keys_iff.1 hk

/-- A new key comes at the end. -/
theorem set_of_not_mem (hkey : key ∉ d.keys) : d.set key value = d ++ [(key, value)] := by
  induction d with
  | nil => rfl
  | cons entry d ih =>
    rw [keys, List.map_cons, List.mem_cons, not_or] at hkey
    rw [set, if_neg (by simpa using Ne.symm hkey.1), ih hkey.2, List.cons_append]

theorem keys_set (d : Dictionary κ α) (key : κ) (value : α) :
    (d.set key value).keys = if key ∈ d.keys then d.keys else d.keys ++ [key] := by
  induction d with
  | nil => rfl
  | cons entry d ih =>
    obtain ⟨k, v⟩ := entry
    rw [set]
    by_cases hk : k = key
    · simp [hk, keys]
    · have hkeys : keys ((k, v) :: set key value d) = k :: (set key value d).keys := rfl
      rw [if_neg (by simpa using hk), hkeys, ih]
      by_cases hmem : key ∈ keys d <;> simp_all [keys, eq_comm]

omit [LawfulBEq κ] in
theorem ofList_concat (entries : List (κ × α)) (key : κ) (value : α) :
    ofList (entries ++ [(key, value)]) = (ofList entries).set key value := by
  simp [ofList]

/-- The keys of entries come in the order in which they first come. -/
theorem keys_ofList (entries : List (κ × α)) :
    (ofList entries).keys = (entries.map Prod.fst).eraseDups := by
  induction entries using List.reverseRecOn with
  | nil => rfl
  | append_singleton entries entry ih =>
    rw [ofList_concat, keys_set, ih, List.map_append, List.map_singleton, eraseDups_concat]
    simp only [List.mem_eraseDups]

/-- Of entries with the same key the last one counts. -/
theorem get?_ofList (entries : List (κ × α)) (key : κ) :
    (ofList entries).get? key = get? entries.reverse key := by
  induction entries using List.reverseRecOn with
  | nil => rfl
  | append_singleton entries entry ih =>
    rw [ofList_concat, get?_set, List.reverse_append, List.reverse_singleton, List.singleton_append,
      get?_cons, ih]

theorem exists_last_of_mem_ofList {entries : List (κ × α)} (h : (key, value) ∈ ofList entries) :
    ∃ before after, entries = before ++ (key, value) :: after ∧ key ∉ after.map Prod.fst := by
  have hd : (ofList entries).keys.Nodup := keys_ofList entries ▸ nodup_eraseDups _
  have hvalue : List.lookup key entries.reverse = some value := by
    rw [← get?_of_mem hd h, get?_ofList, get?]
  obtain ⟨after, before, heq, hafter⟩ := List.lookup_eq_some_iff.1 hvalue
  refine ⟨before.reverse, after.reverse, ?_, fun hmem => ?_⟩
  · rw [← List.reverse_reverse entries, heq]
    simp
  · obtain ⟨entry, hentry, rfl⟩ := List.mem_map.1 hmem
    simpa using hafter entry (List.mem_reverse.1 hentry)

/-- A dictionary made of entries with distinct keys has these entries. -/
theorem ofList_eq_self {entries : Dictionary κ α} (hd : entries.keys.Nodup) :
    ofList entries = entries := by
  induction entries using List.reverseRecOn with
  | nil => rfl
  | append_singleton entries entry ih =>
    rw [keys, List.map_append, List.nodup_append'] at hd
    obtain ⟨hd, -, hdisjoint⟩ := hd
    have hnew : entry.1 ∉ keys entries := fun h => hdisjoint h (by simp)
    rw [ofList_concat, ih hd, set_of_not_mem hnew]

omit [BEq κ] [LawfulBEq κ] in
/-- Distinct keys that are not all keys are fewer than the entries. -/
theorem length_lt_of_not_mem {keys : List κ} (hd : keys.Nodup) (hs : keys ⊆ d.keys)
    (hkey : key ∈ d.keys) (hnew : key ∉ keys) : keys.length < d.length := by
  have hsub : key :: keys ⊆ d.keys := List.cons_subset.2 ⟨hkey, hs⟩
  have hle := (List.subperm_of_subset (List.nodup_cons.2 ⟨hnew, hd⟩) hsub).length_le
  rwa [Dictionary.keys, List.length_map, List.length_cons] at hle

end Dictionary

end SwaggerClient
