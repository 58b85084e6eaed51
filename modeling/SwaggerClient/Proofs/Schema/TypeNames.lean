import SwaggerClient.Proofs.Schema.Discipline

/-!
# The type names of declarations

In every state of a lowering the type names of the declarations are identifiers and distinct.
Each is the type name of its definition alone, perhaps with a number, and was found by trying
one candidate after the other.
-/

namespace SwaggerClient

/-! ## The search for a free name -/

section NameSearch

variable {taken : List String} {base : String}

/-- The search for a free name, from a candidate on and with the next number at hand: a candidate
that is free is the result, and after one that is taken the next number is tried. -/
inductive NameSearch (taken : List String) (base : String) : String → Nat → String → Prop
  | free {current : String} {next : Nat} (h : current ∉ taken) :
      NameSearch taken base current next current
  | next {current result : String} {next : Nat} (h : current ∈ taken)
      (hrest : NameSearch taken base (base ++ toString next) (next + 1) result) :
      NameSearch taken base current next result

/-- A search has one result. -/
theorem NameSearch.unique {current result other : String} {next : Nat}
    (h : NameSearch taken base current next result)
    (ho : NameSearch taken base current next other) : result = other := by
  induction h with
  | free hfree =>
    cases ho with
    | free => rfl
    | next hmem => exact absurd hmem hfree
  | next hmem _ ih =>
    cases ho with
    | free hfree => exact absurd hmem hfree
    | next _ hrest => exact ih hrest

/-- A search passes over the candidates that are taken. -/
theorem search_candidateName {k d : Nat} (hfree : candidateName base (k + d) ∉ taken)
    (hbefore : ∀ j < k + d, candidateName base j ∈ taken) :
    NameSearch taken base (candidateName base k) (k + 2) (candidateName base (k + d)) := by
  induction d generalizing k with
  | zero => exact .free hfree
  | succ d ih =>
    have heq : k + (d + 1) = k + 1 + d := by omega
    rw [heq] at hfree hbefore ⊢
    exact .next (hbefore k (by omega)) (ih hfree hbefore)

/-- The search for a free name ends, with the first candidate that is not taken. -/
theorem search_freeName (taken : List String) (base : String) :
    NameSearch taken base base 2 (freeName taken base) := by
  obtain ⟨k, hk, hfree, hbefore⟩ := exists_freeName_eq taken base
  have hzero : 0 + k = k := Nat.zero_add k
  have hsearch : NameSearch taken base (candidateName base 0) 2 (candidateName base (0 + k)) :=
    search_candidateName (by rwa [hzero]) (by rwa [hzero])
  rwa [hzero, ← hk] at hsearch

/-- A candidate is the base, perhaps with a number from two on. -/
theorem candidateName_cases (base : String) (k : Nat) : candidateName base k = base ∨
    ∃ n, 2 ≤ n ∧ candidateName base k = base ++ toString n := by
  cases k with
  | zero => exact .inl rfl
  | succ k => exact .inr ⟨k + 2, Nat.le_add_left _ _, rfl⟩

end NameSearch

/-- An identifier is its own type name, and no other name is. -/
theorem typeIdentifier_eq_self_iff {name : String} :
    typeIdentifier name = name ↔ isIdentifier name := by
  constructor
  · intro h
    rw [← h]
    exact isIdentifier_typeIdentifier name
  · intro h
    rw [typeIdentifier, if_pos h]

/-! ## Declarations -/

namespace Declarations

/-- What holds of the type names of declarations.  Every type name was found when those in front of
it were taken. -/
structure WellNamed (declared : Declarations) : Prop where
  nodup : (declared.map Prod.snd).Nodup
  identifiers : ∀ entry ∈ declared, isIdentifier entry.2
  suffixed : ∀ entry ∈ declared, entry.2 = typeIdentifier entry.1 ∨
    ∃ n, 2 ≤ n ∧ entry.2 = typeIdentifier entry.1 ++ toString n
  found : ∀ before entry after, declared = before ++ entry :: after →
    NameSearch (before.map Prod.snd) (typeIdentifier entry.1) (typeIdentifier entry.1) 2 entry.2

theorem Sound.wellNamed {definitions : Definitions} {declared : Declarations}
    (h : Sound definitions declared) (hn : Numbered declared) : WellNamed declared where
  nodup := h.names_nodup
  identifiers entry he := h.identifiers _ (List.mem_map_of_mem he)
  suffixed entry he := by
    obtain ⟨before, after, heq⟩ := List.append_of_mem he
    obtain ⟨k, hk, -⟩ := exists_freeName_eq (before.map Prod.snd) (typeIdentifier entry.1)
    rw [hn before entry after heq, hk]
    exact candidateName_cases _ k
  found before entry after heq := by
    rw [hn before entry after heq]
    exact search_freeName _ _

/-- Two definitions share a base, and the numbered name that is next is the name of a third one. -/
example : ((declare [] "ModelA2").declare "model.A").declare "model-A" =
    [("ModelA2", "ModelA2"), ("model.A", "ModelA"), ("model-A", "ModelA3")] := by
  decide

end Declarations

/-! ## States of a lowering -/

/-- A step gives at most one type name, and that one is free. -/
theorem Lowering.Step.numbered {definitions : Definitions} {l l' : Lowering}
    (hs : l.Step definitions l') (h : l.declared.Numbered) : l'.declared.Numbered := by
  cases hs with
  | enter | leave => exact h
  | declare => exact h.declare _

theorem History.Runs.numbered {definitions : Definitions} {h : History} (hr : Runs definitions h) :
    ∀ l ∈ h.moments, l.declared.Numbered := by
  induction hr with
  | start => simpa [moments] using Declarations.Numbered.nil
  | step hr hs ih =>
    exact List.forall_mem_cons.2 ⟨hs.numbered (ih _ List.mem_cons_self), ih⟩

/-- In every state that calls bring a lowering to, type names are distinct and identifiers, each
that of its definition, perhaps with a number from two on.  The search for a free name ends for
whatever names are taken, in nothing but the first candidate that is free; declarations take that
one.  The type name of any text is an identifier, and identifiers are kept. -/
theorem declared_wellNamed (definitions : Definitions) (calls : List LoweringCall) :
    (∃ answers history, (answerAll definitions calls).run ({} : History) = some (answers, history) ∧
      (answerAll definitions calls).run ({} : Lowering) = some (answers, history.now) ∧
      ∀ l ∈ history.moments, l.declared.WellNamed) ∧
    (∀ (taken : List String) (base : String),
      (∃ k, freeName taken base = candidateName base k ∧ candidateName base k ∉ taken ∧
        ∀ j < k, candidateName base j ∈ taken) ∧
      ∀ result, NameSearch taken base base 2 result ↔ result = freeName taken base) ∧
    ∀ name, isIdentifier (typeIdentifier name) ∧
      (typeIdentifier name = name ↔ isIdentifier name) := by
  refine ⟨?_, fun taken base => ⟨exists_freeName_eq taken base, fun result => ?_⟩, fun name =>
    ⟨isIdentifier_typeIdentifier name, typeIdentifier_eq_self_iff⟩⟩
  · obtain ⟨answers, history, hrun, hruns, -⟩ :=
      answerAll_spec (History.invariant_runs definitions) calls .start rfl
    have hplain := (mirrors_answerAll definitions calls ({} : History)).1
    rw [hrun] at hplain
    refine ⟨answers, history, hrun, hplain, fun l hl => ?_⟩
    exact (hruns.sound l hl).declared.wellNamed (hruns.numbered l hl)
  · constructor
    · intro h
      exact h.unique (search_freeName taken base)
    · rintro rfl
      exact search_freeName taken base

end SwaggerClient
