import Mathlib.Logic.Equiv.Basic
import SwaggerClient.Proofs.Api.Requirement
import SwaggerClient.Proofs.TypeExpr.Basic

/-!
# Named types under other names

When some named types are those of another interface under other names, then a search among the
ones goes as it does among the others, so that an endpoint needs the same types under these names.
-/

namespace SwaggerClient

/-! ## Permutations -/

/-- Values that are different for different indices can be moved by a permutation to any others
that are. -/
theorem exists_perm_of_injOn {ι α : Type} [DecidableEq α] {f g : ι → α} (indices : List ι)
    (hf : ∀ i ∈ indices, ∀ j ∈ indices, f i = f j → i = j)
    (hg : ∀ i ∈ indices, ∀ j ∈ indices, g i = g j → i = j) :
    ∃ p : Equiv.Perm α, ∀ i ∈ indices, p (f i) = g i := by
  induction indices with
  | nil => exact ⟨Equiv.refl α, by simp⟩
  | cons i indices ih =>
    obtain ⟨p, hp⟩ := ih
      (fun j hj k hk => hf j (List.mem_cons_of_mem _ hj) k (List.mem_cons_of_mem _ hk))
      (fun j hj k hk => hg j (List.mem_cons_of_mem _ hj) k (List.mem_cons_of_mem _ hk))
    refine ⟨p.trans (Equiv.swap (p (f i)) (g i)), fun j hj => ?_⟩
    by_cases hij : j = i
    · rw [hij, Equiv.trans_apply, Equiv.swap_apply_left]
    · have hmem : j ∈ indices := (List.mem_cons.1 hj).resolve_left hij
      -- The exchange moves neither of the values that are in place already.
      have hfrom : g j ≠ p (f i) := fun h =>
        hij (hf j hj i List.mem_cons_self (p.injective ((hp j hmem).trans h)))
      have hto : g j ≠ g i := fun h => hij (hg j hj i List.mem_cons_self h)
      rw [Equiv.trans_apply, hp j hmem, Equiv.swap_apply_of_ne_of_ne hfrom hto]

/-! ## Renaming -/

variable {ρ : String → String} {p : String → Prop} {named named' : List NamedType}
  {type : TypeExpr String} {name : String}

/-- A named type under another name, as are those that it refers to. -/
def NamedType.rename (ρ : String → String) (n : NamedType) : NamedType :=
  ⟨ρ n.name, n.type.mapReferences ρ⟩

/-- An endpoint with other names for the named types that it needs. -/
def Endpoint.rename (ρ : String → String) (e : Endpoint) : Endpoint :=
  { e with
    body := e.body.map (TypeExpr.mapReferences ρ)
    response := e.response.map (TypeExpr.mapReferences ρ)
    requires := e.requires.map ρ }

/-- Whether the types of some names, which refer to nothing but such names, are found among
others under other names. -/
structure Renames (ρ : String → String) (p : String → Prop) (named named' : List NamedType) :
    Prop where
  injective : Function.Injective ρ
  find : ∀ name, p name → ∃ n, findNamed named name = some n ∧
    findNamed named' (ρ name) = some (n.rename ρ) ∧ ∀ ref ∈ n.type.references, p ref

namespace Renames

theorem forall_references (h : Renames ρ p named named') (hp : p name) {n : NamedType}
    (hn : findNamed named name = some n) : ∀ ref ∈ n.type.references, p ref := by
  obtain ⟨m, hm, -, hrefs⟩ := h.find name hp
  obtain rfl : n = m := Option.some.inj (hn.symm.trans hm)
  exact hrefs

theorem of_reaches (h : Renames ρ p named named') (hr : Reaches named type name)
    (ht : ∀ ref ∈ type.references, p ref) : p name := by
  induction hr with
  | reference hname _ => exact ht _ hname
  | through hname hn _ ih => exact ih (h.forall_references (ht _ hname) hn)

theorem newlyFound_map (h : Renames ρ p named named') (found : List String) {names : List String}
    (hnames : ∀ name ∈ names, p name) :
    newlyFound named' (found.map ρ) (names.map ρ) =
      (newlyFound named found names).map (NamedType.rename ρ) := by
  induction names generalizing found with
  | nil => rfl
  | cons name names ih =>
    obtain ⟨hname, hnames⟩ := List.forall_mem_cons.1 hnames
    obtain ⟨n, hn, hn', -⟩ := h.find name hname
    have hfound : (found.map ρ).contains (ρ name) = found.contains name := by
      rw [Bool.eq_iff_iff, List.contains_iff_mem, List.contains_iff_mem,
        List.mem_map_of_injective h.injective]
    have hstep := ih (name :: found) hnames
    rw [List.map_cons] at hstep
    simp only [List.map_cons, newlyFound, hn, hn', hfound, ih found hnames, hstep]
    split <;> rfl

/-- A search among the other named types finds the same types under their names there. -/
theorem reachableNames_map (h : Renames ρ p named named') (steps : Nat)
    {pending : List (TypeExpr String)} (found : List String)
    (hpending : ∀ type ∈ pending, ∀ ref ∈ type.references, p ref) :
    reachableNames named' steps (pending.map (TypeExpr.mapReferences ρ)) (found.map ρ) =
      (reachableNames named steps pending found).map ρ := by
  induction steps generalizing pending found with
  | zero => rfl
  | succ steps ih =>
    cases pending with
    | nil => rfl
    | cons type pending =>
      obtain ⟨htype, hpending⟩ := List.forall_mem_cons.1 hpending
      have hnext : ∀ t ∈ ((newlyFound named found type.references).map (·.type)).reverse ++ pending,
          ∀ ref ∈ t.references, p ref := by
        intro t ht
        rcases List.mem_append.1 ht with ht | ht
        · obtain ⟨n, hn, rfl⟩ := List.mem_map.1 (List.mem_reverse.1 ht)
          obtain ⟨hfind, hname, -⟩ := mem_newlyFound_iff.1 hn
          exact h.forall_references (htype n.name hname) hfind
        · exact hpending t ht
      have hrest := ih (found ++ (newlyFound named found type.references).map (·.name)) hnext
      rw [reachableNames, ← hrest, List.map_cons, reachableNames,
        TypeExpr.references_mapReferences, h.newlyFound_map found htype]
      simp [NamedType.rename, Function.comp_def]

variable {e : Endpoint}

/-- An endpoint needs the same types under their other names. -/
theorem requiredNames_rename (h : Renames ρ p named named')
    (he : ∀ type ∈ e.body.toList ++ e.response.toList, ∀ ref ∈ type.references, p ref) :
    (e.rename ρ).requiredNames named' = (e.requiredNames named).map ρ := by
  have htypes : (e.rename ρ).response.toList ++ (e.rename ρ).body.toList =
      (e.response.toList ++ e.body.toList).map (TypeExpr.mapReferences ρ) := by
    simp [Endpoint.rename, Option.toList_map]
  have hpending : ∀ type ∈ e.response.toList ++ e.body.toList, ∀ ref ∈ type.references, p ref :=
    fun type ht => he type (List.mem_append.2 (List.mem_append.1 ht).symm)
  -- The two searches have different bounds, so both are given the steps of the other as well.
  rw [requiredNames_eq_add _ named' named.length, requiredNames_eq_add _ named named'.length,
    ← h.reachableNames_map _ [] hpending, htypes]
  congr 1
  omega

end Renames

end SwaggerClient
