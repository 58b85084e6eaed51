import Mathlib.Data.Finset.Card
import Mathlib.Data.Finset.Dedup
import Mathlib.Data.List.Nodup
import SwaggerClient.Lint.DuplicateFunction

/-!
# Which functions are reported

The lint for functions of the same name reports an operation exactly when an earlier one of
its group has the function, together with the first of these.  So it finds nothing exactly
when every operation has a function of its own in its group.
-/

namespace SwaggerClient

/-! ## The first operation with a function -/

/-- The first of some operations with a function. -/
def firstWithKey (routes : List Route) (key : String × String) : Option Route :=
  routes.find? (·.functionKey == key)

variable {routes : List Route} {r first : Route} {key : String × String}

theorem firstWithKey_eq_none_iff :
    firstWithKey routes key = none ↔ key ∉ routes.map Route.functionKey := by
  simp [firstWithKey]

theorem mem_of_firstWithKey (h : firstWithKey routes key = some first) :
    key ∈ routes.map Route.functionKey := by
  by_contra hnew
  rw [firstWithKey_eq_none_iff.2 hnew] at h
  cases h

theorem firstWithKey_concat (routes : List Route) (r : Route) (key : String × String) :
    firstWithKey (routes ++ [r]) key =
      (firstWithKey routes key).or (if r.functionKey = key then some r else none) := by
  simp only [firstWithKey, List.find?_append, List.find?_singleton, beq_iff_eq]

/-- An operation whose function an earlier one has is the first of no function. -/
theorem firstWithKey_concat_of_some (h : firstWithKey routes r.functionKey = some first)
    (key : String × String) : firstWithKey (routes ++ [r]) key = firstWithKey routes key := by
  rw [firstWithKey_concat]
  by_cases hkey : r.functionKey = key
  · subst hkey
    rw [h, Option.some_or]
  · rw [if_neg hkey, Option.or_none]

theorem duplicateWarnings_cons (firsts : List Route) (r : Route) (routes : List Route) :
    duplicateWarnings firsts (r :: routes) =
      match firstWithKey firsts r.functionKey with
      | some first => r.duplicateWarning first :: duplicateWarnings firsts routes
      | none => duplicateWarnings (firsts ++ [r]) routes := rfl

/-! ## What is reported -/

/-- An operation is reported when one in front of it has its function.  To look that up, the
firsts of the functions before are as good as all operations before. -/
theorem duplicateWarnings_eq_filterMap (firsts before routes : List Route)
    (hfirsts : ∀ key, firstWithKey firsts key = firstWithKey before key) :
    duplicateWarnings firsts routes =
      (routes.zipIdx before.length).filterMap fun (r, i) =>
        (firstWithKey ((before ++ routes).take i) r.functionKey).map r.duplicateWarning := by
  induction routes generalizing firsts before with
  | nil => rfl
  | cons r routes ih =>
    have htail : ∀ firsts', (∀ key, firstWithKey firsts' key = firstWithKey (before ++ [r]) key) →
        duplicateWarnings firsts' routes =
          (routes.zipIdx (before.length + 1)).filterMap fun (s, i) =>
            (firstWithKey ((before ++ r :: routes).take i) s.functionKey).map
              s.duplicateWarning := by
      intro firsts' h
      simpa using ih firsts' (before ++ [r]) h
    have hhere : firstWithKey ((before ++ r :: routes).take before.length) r.functionKey =
        firstWithKey firsts r.functionKey := by
      rw [List.take_left, hfirsts]
    rw [duplicateWarnings_cons, List.zipIdx_cons, List.filterMap_cons]
    simp only [hhere]
    cases hfind : firstWithKey firsts r.functionKey with
    | some first =>
      simp only [Option.map_some]
      refine congrArg _ (htail firsts fun key => ?_)
      rw [firstWithKey_concat_of_some (hfirsts _ ▸ hfind), hfirsts]
    | none =>
      simp only [Option.map_none]
      refine htail (firsts ++ [r]) fun key => ?_
      rw [firstWithKey_concat, firstWithKey_concat, hfirsts]

/-- Every operation is reported or is the first of its function. -/
theorem length_duplicateWarnings (firsts routes : List Route)
    (hfirsts : (firsts.map Route.functionKey).Nodup) :
    (duplicateWarnings firsts routes).length +
        ((firsts ++ routes).map Route.functionKey).toFinset.card =
      firsts.length + routes.length := by
  induction routes generalizing firsts with
  | nil => simp [duplicateWarnings, List.toFinset_card_of_nodup hfirsts]
  | cons r routes ih =>
    rw [duplicateWarnings_cons]
    cases hfind : firstWithKey firsts r.functionKey with
    | some first =>
      have hmem := mem_of_firstWithKey hfind
      have hkeys : ((firsts ++ r :: routes).map Route.functionKey).toFinset =
          ((firsts ++ routes).map Route.functionKey).toFinset := by
        ext key
        simp only [List.map_append, List.map_cons, List.mem_toFinset, List.mem_append,
          List.mem_cons]
        constructor
        · rintro (h | rfl | h)
          · exact .inl h
          · exact .inl hmem
          · exact .inr h
        · rintro (h | h)
          · exact .inl h
          · exact .inr (.inr h)
      have := ih firsts hfirsts
      simp only [List.length_cons, hkeys]
      omega
    | none =>
      have hnodup : ((firsts ++ [r]).map Route.functionKey).Nodup := by
        have hnew := firstWithKey_eq_none_iff.1 hfind
        rw [List.map_append]
        exact hfirsts.append (List.nodup_singleton _) (List.disjoint_singleton.2 hnew)
      have := ih (firsts ++ [r]) hnodup
      simp only [List.append_assoc, List.singleton_append, List.length_append,
        List.length_singleton] at this
      simp only [List.length_cons]
      omega

/-! ## The lint -/

theorem duplicateFunctionLint_eq_filterMap (d : Document) :
    duplicateFunctionLint.check d = d.routes.zipIdx.filterMap fun (r, i) =>
      (firstWithKey (d.routes.take i) r.functionKey).map r.duplicateWarning :=
  duplicateWarnings_eq_filterMap [] [] d.routes fun _ => rfl

theorem length_duplicateFunctionLint (d : Document) :
    (duplicateFunctionLint.check d).length + (d.routes.map Route.functionKey).toFinset.card =
      d.routes.length := by
  have h := length_duplicateWarnings [] d.routes List.nodup_nil
  simpa [duplicateFunctionLint] using h

/-- Nothing is reported when there are as many functions as operations. -/
theorem duplicateFunctionLint_eq_nil_iff {d : Document} :
    duplicateFunctionLint.check d = [] ↔ (d.routes.map Route.functionKey).Nodup := by
  have hlength := length_duplicateFunctionLint d
  have hcard : (d.routes.map Route.functionKey).toFinset.card = d.routes.length ↔
      (d.routes.map Route.functionKey).Nodup := by
    rw [← Multiset.coe_nodup, ← Multiset.toFinset_card_eq_card_iff_nodup, List.toFinset_coe,
      Multiset.coe_card, List.length_map]
  rw [← hcard, ← List.length_eq_zero_iff]
  omega

end SwaggerClient
