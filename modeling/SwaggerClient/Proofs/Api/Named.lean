import Mathlib.Data.List.Nodup
import SwaggerClient.Api.Basic

/-!
# Finding named types

A named type is found by its name, and a list of names gives the named types that are
new, each once.
-/

namespace SwaggerClient

variable {named : List NamedType} {name : String} {n : NamedType} {found names : List String}

theorem mem_of_findNamed (h : findNamed named name = some n) : n ∈ named :=
  List.mem_of_find?_eq_some h

theorem name_of_findNamed (h : findNamed named name = some n) : n.name = name := by
  simpa using List.find?_some h

/-- With distinct names every named type is found. -/
theorem findNamed_of_mem (hd : (named.map (·.name)).Nodup) (h : n ∈ named) :
    findNamed named n.name = some n := by
  obtain ⟨m, hm⟩ : ∃ m, findNamed named n.name = some m :=
    Option.isSome_iff_exists.1 (List.find?_isSome.2 ⟨n, h, by simp⟩)
  obtain rfl : m = n :=
    List.inj_on_of_nodup_map hd (mem_of_findNamed hm) h (name_of_findNamed hm)
  exact hm

/-- What is newly found has one of the names, and not one that was found before. -/
theorem mem_newlyFound_iff :
    n ∈ newlyFound named found names ↔
      findNamed named n.name = some n ∧ n.name ∈ names ∧ n.name ∉ found := by
  induction names generalizing found with
  | nil => simp [newlyFound]
  | cons name names ih =>
    unfold newlyFound
    cases hn : findNamed named name with
    | none =>
      have hne : findNamed named n.name = some n → n.name ≠ name := by
        rintro h rfl
        rw [hn] at h
        cases h
      simp only [ih, List.mem_cons]
      tauto
    | some m =>
      have hm := name_of_findNamed hn
      have heq : findNamed named n.name = some n → n.name = name → n = m := by
        rintro h rfl
        exact Option.some.inj (h.symm.trans hn)
      by_cases hf : name ∈ found
      · simp only [List.contains_iff_mem.2 hf, if_true, ih, List.mem_cons]
        constructor
        · tauto
        · rintro ⟨h, rfl | hmem, hnew⟩
          · exact absurd hf hnew
          · exact ⟨h, hmem, hnew⟩
      · simp only [List.contains_iff_mem, hf, if_false, List.mem_cons, ih, not_or]
        constructor
        · rintro (rfl | ⟨h, hmem, hne, hnew⟩)
          · exact ⟨hm ▸ hn, .inl hm, hm ▸ hf⟩
          · exact ⟨h, .inr hmem, hnew⟩
        · rintro ⟨h, hmem, hnew⟩
          by_cases hname : n.name = name
          · exact .inl (heq h hname)
          · exact .inr ⟨h, hmem.resolve_left hname, hname, hnew⟩

theorem nodup_newlyFound (named : List NamedType) (found names : List String) :
    ((newlyFound named found names).map (·.name)).Nodup := by
  induction names generalizing found with
  | nil => exact List.nodup_nil
  | cons name names ih =>
    unfold newlyFound
    split
    next => exact ih found
    next m hn =>
      split
      · exact ih found
      · refine List.nodup_cons.2 ⟨fun hmem => ?_, ih (name :: found)⟩
        obtain ⟨k, hk, hname⟩ := List.mem_map.1 hmem
        have hnew := (mem_newlyFound_iff.1 hk).2.2
        exact hnew (by simp [hname, name_of_findNamed hn])

end SwaggerClient
