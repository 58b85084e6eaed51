import Mathlib.Data.List.Perm.Subperm
import SwaggerClient.Proofs.Dictionary
import SwaggerClient.Proofs.Name.Identifier
import SwaggerClient.Schema.Lowering

/-!
# Declarations

Declaring a definition gives it a type name that no other one has, adds it at the
end, and changes nothing about those declared before.
-/

namespace SwaggerClient

/-! ## Free names -/

/-- Numbers with the same text are the same. -/
theorem toString_nat_injective : Function.Injective (toString : Nat → String) := by
  intro m n h
  have hd : Nat.toDigits 10 m = Nat.toDigits 10 n := by
    simpa only [Nat.toString_eq_ofList_toDigits, String.ofList_inj] using h
  have := congrArg (fun digits => Nat.ofDigitChars 10 digits 0) hd
  simpa only [Nat.ofDigitChars_ten_toDigits] using this

/-- The candidates for a type name are different from each other. -/
theorem candidateName_injective (base : String) : Function.Injective (candidateName base) := by
  intro m n h
  cases m with
  | zero =>
    cases n with
    | zero => rfl
    | succ n => simp [candidateName, String.ext_iff, Nat.toDigits_ne_nil] at h
  | succ m =>
    cases n with
    | zero => simp [candidateName, String.ext_iff, Nat.toDigits_ne_nil] at h
    | succ n =>
      simp only [candidateName, String.append_right_inj] at h
      have := toString_nat_injective h
      omega

/-- One of more candidates than there are taken names is free. -/
theorem exists_candidateName_not_mem (taken : List String) (base : String) :
    ∃ k < taken.length + 1, candidateName base k ∉ taken := by
  by_contra h
  push Not at h
  have hnodup : ((List.range (taken.length + 1)).map (candidateName base)).Nodup :=
    List.nodup_range.map (candidateName_injective base)
  have hsub : (List.range (taken.length + 1)).map (candidateName base) ⊆ taken := by
    intro name hname
    obtain ⟨k, hk, rfl⟩ := List.mem_map.1 hname
    exact h k (List.mem_range.1 hk)
  have hle := (List.subperm_of_subset hnodup hsub).length_le
  rw [List.length_map, List.length_range] at hle
  omega

/-- The free name is a candidate that is not taken, and all candidates before it
are. -/
theorem exists_freeName_eq (taken : List String) (base : String) :
    ∃ k, freeName taken base = candidateName base k ∧ candidateName base k ∉ taken ∧
      ∀ j < k, candidateName base j ∈ taken := by
  obtain ⟨m, hm, hfree⟩ := exists_candidateName_not_mem taken base
  cases hfind : (List.range (taken.length + 1)).find?
      ((fun name => !taken.contains name) ∘ candidateName base) with
  | none =>
    rw [List.find?_range_eq_none] at hfind
    simpa [hfree] using hfind m hm
  | some k =>
    rw [List.find?_range_eq_some] at hfind
    obtain ⟨hk, hmem, hbefore⟩ := hfind
    refine ⟨k, ?_, by simpa using hk, fun j hj => by simpa using hbefore j hj⟩
    have hsome : (List.range (taken.length + 1)).find?
        ((fun name => !taken.contains name) ∘ candidateName base) = some k :=
      List.find?_range_eq_some.2 ⟨hk, hmem, hbefore⟩
    rw [freeName, List.find?_map, hsome]
    rfl

/-- The candidates for the type name of a definition are identifiers. -/
theorem isIdentifier_candidateName (definition : String) (k : Nat) :
    isIdentifier (candidateName (typeIdentifier definition) k) := by
  have hbase := isIdentifier_typeIdentifier definition
  cases k with
  | zero => exact hbase
  | succ k => exact isIdentifier_append_toString hbase _

/-- A base that is not taken is kept. -/
theorem freeName_of_not_mem {taken : List String} {base : String} (h : base ∉ taken) :
    freeName taken base = base := by
  obtain ⟨k, hk, -, hbefore⟩ := exists_freeName_eq taken base
  cases k with
  | zero => exact hk
  | succ k => exact absurd (hbefore 0 (Nat.succ_pos k)) h

theorem freeName_not_mem (taken : List String) (base : String) : freeName taken base ∉ taken := by
  obtain ⟨k, hk, hfree, -⟩ := exists_freeName_eq taken base
  rwa [hk]

/-! ## Names that stay -/

namespace Declarations

variable {declared later : Declarations} {definition : String}

/-- A declared definition keeps its type name. -/
theorem typeName_of_prefix (h : definition ∈ declared.map Prod.fst) (hl : declared <+: later) :
    later.typeName definition = declared.typeName definition := by
  obtain ⟨name, hname⟩ := Option.isSome_iff_exists.1 (Dictionary.mem_keys_iff.1 h)
  have hname : declared.lookup definition = some name := hname
  simp [typeName, hname, hl.lookup_eq_some hname]

theorem mem_typeName (h : definition ∈ declared.map Prod.fst) :
    (definition, declared.typeName definition) ∈ declared := by
  obtain ⟨name, hname⟩ := Option.isSome_iff_exists.1 (Dictionary.mem_keys_iff.1 h)
  have hname : declared.lookup definition = some name := hname
  simpa [typeName, hname] using Dictionary.mem_of_get? hname

theorem mem_declare_iff {other : String} :
    other ∈ (declared.declare definition).map Prod.fst ↔
      other ∈ declared.map Prod.fst ∨ other = definition := by
  unfold declare
  split
  next h =>
    have hmem : definition ∈ declared.map Prod.fst := Dictionary.mem_keys_iff.2 h
    exact (or_iff_left_of_imp fun heq => heq ▸ hmem).symm
  next => simp

theorem mem_declare (declared : Declarations) (definition : String) :
    definition ∈ (declared.declare definition).map Prod.fst :=
  mem_declare_iff.2 (.inr rfl)

theorem declare_of_mem (h : definition ∈ declared.map Prod.fst) :
    declared.declare definition = declared :=
  if_pos (Dictionary.mem_keys_iff.1 h)

theorem prefix_declare (declared : Declarations) (definition : String) :
    declared <+: declared.declare definition := by
  unfold declare
  split
  · exact List.prefix_rfl
  · exact List.prefix_append _ _

/-! ## Type names in order -/

/-- Whether every type name is the first one that was free when it was given. -/
def Numbered (declared : Declarations) : Prop :=
  ∀ before entry after, declared = before ++ entry :: after →
    entry.2 = freeName (before.map Prod.snd) (typeIdentifier entry.1)

namespace Numbered

theorem nil : Numbered [] := by
  simp [Numbered]

theorem declare (h : Numbered declared) (definition : String) :
    Numbered (declared.declare definition) := by
  unfold Declarations.declare
  split
  · exact h
  · intro before entry after heq
    rcases List.eq_nil_or_concat after with rfl | ⟨rest, last, rfl⟩
    · obtain ⟨rfl, hentry⟩ := List.append_inj' heq rfl
      rw [← List.singleton_inj.1 hentry]
    · rw [List.concat_eq_append, ← List.cons_append, ← List.append_assoc] at heq
      exact h before entry rest (List.append_inj' heq rfl).1

/-- Definitions whose names are identifiers are declared under their own names. -/
theorem eq_of_isIdentifier (h : Numbered declared) (hd : (declared.map Prod.fst).Nodup)
    (hi : ∀ entry ∈ declared, isIdentifier entry.1) {before after : Declarations}
    {entry : String × String} (heq : declared = before ++ entry :: after) : entry.2 = entry.1 := by
  induction hn : before.length using Nat.strongRecOn generalizing before entry after with
  | ind n ih =>
    subst hn
    -- The type names given before are the definitions declared before.
    have hnames : before.map Prod.snd = before.map Prod.fst := by
      refine List.map_congr_left fun other hother => ?_
      obtain ⟨front, back, hsplit⟩ := List.append_of_mem hother
      have hshorter : front.length < before.length := by simp [hsplit]
      have hfront : declared = front ++ other :: (back ++ entry :: after) := by simp [heq, hsplit]
      exact ih front.length hshorter hfront rfl
    have hnew : entry.1 ∉ before.map Prod.fst := by
      rw [heq, List.map_append, List.map_cons] at hd
      intro hmem
      exact (List.nodup_append.1 hd).2.2 _ hmem _ List.mem_cons_self rfl
    have hbase : typeIdentifier entry.1 = entry.1 := by
      simp [typeIdentifier, hi entry (by simp [heq])]
    rw [h before entry after heq, hnames, hbase, freeName_of_not_mem hnew]

end Numbered

/-! ## Sound declarations -/

/-- What holds of the declarations of a lowering: definitions and type names are
distinct, type names are identifiers, and every definition is there. -/
structure Sound (definitions : Definitions) (declared : Declarations) : Prop where
  nodup : (declared.map Prod.fst).Nodup
  names_nodup : (declared.map Prod.snd).Nodup
  identifiers : ∀ name ∈ declared.map Prod.snd, isIdentifier name
  subset : declared.map Prod.fst ⊆ definitions.keys

namespace Sound

variable {definitions : Definitions}

theorem nil : Sound definitions [] :=
  ⟨by simp, by simp, by simp, by simp⟩

/-- The definition is new to the declarations, and its type name is free. -/
theorem declare (h : Sound definitions declared) (hd : definition ∈ definitions.keys) :
    Sound definitions (declared.declare definition) := by
  unfold Declarations.declare
  split
  next => exact h
  next hnew =>
    have hdef : definition ∉ declared.map Prod.fst := fun hmem =>
      hnew (Dictionary.mem_keys_iff.1 hmem)
    have hname := freeName_not_mem (declared.map Prod.snd) (typeIdentifier definition)
    constructor
    · rw [List.map_append]
      exact h.nodup.append (List.nodup_singleton _) (List.disjoint_singleton.2 hdef)
    · rw [List.map_append]
      exact h.names_nodup.append (List.nodup_singleton _) (List.disjoint_singleton.2 hname)
    · intro name hmem
      rw [List.map_append, List.mem_append] at hmem
      rcases hmem with hmem | hmem
      · exact h.identifiers name hmem
      · obtain ⟨k, hk, -⟩ :=
          exists_freeName_eq (declared.map Prod.snd) (typeIdentifier definition)
        obtain rfl : name = _ := List.mem_singleton.1 hmem
        rw [hk]
        exact isIdentifier_candidateName definition k
    · rw [List.map_append]
      exact List.append_subset.2 ⟨h.subset, by simpa using hd⟩

/-- There are at most as many declarations as definitions. -/
theorem length_le (h : Sound definitions declared) : declared.length ≤ definitions.length := by
  have hle := (List.subperm_of_subset h.nodup h.subset).length_le
  rwa [Dictionary.keys, List.length_map, List.length_map] at hle

/-- The type name of a declared definition is the one that it is declared with. -/
theorem typeName_eq (h : Sound definitions declared) {entry : String × String}
    (he : entry ∈ declared) : declared.typeName entry.1 = entry.2 := by
  have hmem := mem_typeName (List.mem_map_of_mem he)
  exact congrArg Prod.snd (List.inj_on_of_nodup_map h.nodup hmem he rfl)

/-- Definitions with one type name are the same. -/
theorem eq_of_typeName_eq (h : Sound definitions declared) {d e : String}
    (hd : d ∈ declared.map Prod.fst) (he : e ∈ declared.map Prod.fst)
    (heq : declared.typeName d = declared.typeName e) : d = e := by
  have := List.inj_on_of_nodup_map h.names_nodup (mem_typeName hd) (mem_typeName he) heq
  exact congrArg Prod.fst this

end Sound

end Declarations

end SwaggerClient
