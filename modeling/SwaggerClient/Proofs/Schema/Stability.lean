import SwaggerClient.Proofs.Schema.Discipline

/-!
# Calls find what earlier calls left

Every call finds the declarations of the calls before it, and may add to them at the end.  What
was declared stays as it is, and so a type that was named once is named alike by any later call.
The named types need no declaration that is not among them: to ask for them again changes nothing,
unless a node was lowered in between that needs a new one.
-/

namespace SwaggerClient

namespace Definitions

variable {definitions : Definitions} {position : Nat} {declared later : Declarations}

/-- Whether everything that the declared definitions need is declared. -/
def Complete (definitions : Definitions) (declared : Declarations) : Prop :=
  ∀ entry ∈ declared, declared.Covers (definitions.expandDefinition entry.1).references

theorem Declares.complete (h : definitions.Declares 0 declared later) :
    definitions.Complete later :=
  h.covers

/-- Complete declarations do not grow. -/
theorem Declares.eq_of_complete (h : definitions.Declares position declared later)
    (hc : definitions.Complete declared) : later = declared := by
  induction h with
  | done => rfl
  | next hentry _ ih =>
    rw [Declarations.declareTargets_of_covers (hc _ (List.mem_of_getElem? hentry))] at ih
    exact ih hc

/-- The types of complete declarations stay when more is declared. -/
theorem Complete.namedTypes_prefix (hc : definitions.Complete declared) (hl : declared <+: later) :
    declared.map (definitions.namedType declared) <+: later.map (definitions.namedType later) := by
  have hsame : declared.map (definitions.namedType declared) =
      declared.map (definitions.namedType later) :=
    List.map_congr_left fun entry he => by
      rw [namedType, namedType, (hc entry he).mapReferences_nameOf hl]
  rw [hsame]
  exact hl.map _

end Definitions

/-- What is declared when the call at a position is made.  Behind the last call that is what is
declared in the end. -/
def declaredBefore : Declarations → List (LoweringAnswer × Lowering) → Nat → Declarations
  | declared, [], _ => declared
  | declared, _ :: _, 0 => declared
  | _, (_, l) :: answers, position + 1 => declaredBefore l.declared answers position

@[simp] theorem declaredBefore_zero (declared : Declarations)
    (answers : List (LoweringAnswer × Lowering)) :
    declaredBefore declared answers 0 = declared := by
  cases answers <;> rfl

@[simp] theorem declaredBefore_cons_succ (declared : Declarations)
    (entry : LoweringAnswer × Lowering) (answers : List (LoweringAnswer × Lowering))
    (position : Nat) :
    declaredBefore declared (entry :: answers) (position + 1) =
      declaredBefore entry.2.declared answers position :=
  rfl

/-- Whether no node that is lowered from one position on and before another needs a new
declaration. -/
def NothingNew (declared : Declarations) (calls : List LoweringCall)
    (answers : List (LoweringAnswer × Lowering)) (i j : Nat) : Prop :=
  ∀ (k : Nat) (node : Option SchemaNode), i ≤ k → k < j → calls[k]? = some (.lower node) →
    declaredBefore declared answers (k + 1) = declaredBefore declared answers k

theorem LoweringCall.Gives.prefix_later {definitions : Definitions} {call : LoweringCall}
    {declared later : Declarations} {answer : LoweringAnswer}
    (h : call.Gives definitions declared later answer) : declared <+: later := by
  cases call with
  | lower node =>
    rw [h.1]
    exact Declarations.prefix_declareTargets _ _
  | namedTypes => exact h.1.prefix_later

namespace Answered

variable {definitions : Definitions} {declared last : Declarations} {calls : List LoweringCall}
  {answers : List (LoweringAnswer × Lowering)} {i j : Nat}

/-- What the call at a position gives. -/
theorem gives (h : Answered definitions declared calls answers last) {call : LoweringCall}
    (hcall : calls[i]? = some call) :
    ∃ answer, answers[i]? = some (answer, ⟨[], declaredBefore declared answers (i + 1)⟩) ∧
      call.Gives definitions (declaredBefore declared answers i)
        (declaredBefore declared answers (i + 1)) answer := by
  induction h generalizing i with
  | nil => simp at hcall
  | @cons declared later last call' calls answer answers h hrest ih =>
    cases i with
    | zero =>
      obtain rfl : call' = call := by simpa using hcall
      exact ⟨answer, by simp, by simpa using h⟩
    | succ i => exact ih (by simpa using hcall)

theorem prefix_declaredBefore_succ (h : Answered definitions declared calls answers last) :
    declaredBefore declared answers i <+: declaredBefore declared answers (i + 1) := by
  induction h generalizing i with
  | nil => exact List.prefix_rfl
  | @cons declared later last call calls answer answers h hrest ih =>
    cases i with
    | zero => simpa using h.prefix_later
    | succ i => exact ih

/-- What is declared stays declared. -/
theorem prefix_declaredBefore (h : Answered definitions declared calls answers last) (hij : i ≤ j) :
    declaredBefore declared answers i <+: declaredBefore declared answers j := by
  induction hij with
  | refl => exact List.prefix_rfl
  | step _ ih => exact ih.trans h.prefix_declaredBefore_succ

/-- A node that is lowered twice has the same type both times. -/
theorem lower_eq_of_le (h : Answered definitions declared calls answers last) (hij : i ≤ j)
    {node : Option SchemaNode} (hi : calls[i]? = some (.lower node))
    (hj : calls[j]? = some (.lower node)) :
    ∃ type, answers[i]?.map Prod.fst = some (.type type) ∧
      answers[j]?.map Prod.fst = some (.type type) := by
  obtain ⟨answer, hanswer, hdeclared, hgives⟩ := h.gives hi
  obtain ⟨answer', hanswer', -, hgives'⟩ := h.gives hj
  have hcovers : (declaredBefore declared answers (i + 1)).Covers
      (definitions.expandOptional node).references := by
    rw [hdeclared]
    exact Declarations.covers_declareTargets _ _
  have hsame := hcovers.mapReferences_nameOf (h.prefix_declaredBefore (Nat.succ_le_succ hij))
  rw [hgives] at hanswer
  rw [hgives', hsame] at hanswer'
  exact ⟨_, by rw [hanswer]; rfl, by rw [hanswer']; rfl⟩

/-- Between two positions complete declarations grow only in calls that lower a node. -/
theorem declaredBefore_eq (h : Answered definitions declared calls answers last) (hij : i ≤ j)
    (hc : definitions.Complete (declaredBefore declared answers i))
    (hnew : NothingNew declared calls answers i j) (hj : j ≤ calls.length) :
    declaredBefore declared answers j = declaredBefore declared answers i := by
  induction hij with
  | refl => rfl
  | @step j hij ih =>
    have ih := ih (fun k node hk hkj => hnew k node hk (Nat.lt_succ_of_lt hkj)) (by omega)
    obtain ⟨call, hcall⟩ : ∃ call, calls[j]? = some call := ⟨_, List.getElem?_eq_getElem hj⟩
    cases call with
    | lower node => rw [hnew j node hij (Nat.lt_succ_self j) hcall, ih]
    | namedTypes =>
      obtain ⟨-, -, hdeclares, -⟩ := h.gives hcall
      rw [ih] at hdeclares
      exact hdeclares.eq_of_complete hc

/-- The named types that are given first come first among those that are given later.  They are
all of them when no node that is lowered in between needs a new declaration. -/
theorem namedTypes_prefix (h : Answered definitions declared calls answers last) (hij : i < j)
    (hi : calls[i]? = some .namedTypes) (hj : calls[j]? = some .namedTypes) :
    ∃ types types', answers[i]?.map Prod.fst = some (.namedTypes types) ∧
      answers[j]?.map Prod.fst = some (.namedTypes types') ∧ types <+: types' ∧
      (NothingNew declared calls answers i j → types' = types) := by
  obtain ⟨answer, hanswer, hdeclares, rfl⟩ := h.gives hi
  obtain ⟨answer', hanswer', -, rfl⟩ := h.gives hj
  have hcomplete := hdeclares.complete
  refine ⟨_, _, by rw [hanswer]; rfl, by rw [hanswer']; rfl,
    hcomplete.namedTypes_prefix (h.prefix_declaredBefore (by omega)), fun hnew => ?_⟩
  have hlt := (List.getElem?_eq_some_iff.1 hj).1
  have hnew : NothingNew declared calls answers (i + 1) (j + 1) := by
    intro k node hik hkj hk
    rcases Nat.lt_succ_iff_lt_or_eq.1 hkj with hkj | rfl
    · exact hnew k node (by omega) hkj hk
    · rw [hj] at hk
      cases hk
  rw [h.declaredBefore_eq (by omega) hcomplete hnew hlt]

end Answered

/-- Calls one after the other on a fresh lowering leave what earlier ones did as it is.  The
declarations before a call come first among those before any later one, so that every declared
definition keeps its type name.  A node that is lowered twice has the same type both times.  And
the named types that are given at one time come first among those that are given later, which are
the same unless a node that is lowered in between needs a new declaration. -/
theorem lowering_stable (definitions : Definitions) (calls : List LoweringCall) :
    ∃ answers l, (answerAll definitions calls).run ({} : Lowering) = some (answers, l) ∧
      (∀ i j, i ≤ j →
        declaredBefore [] answers i <+: declaredBefore [] answers j ∧
          ∀ definition name, (declaredBefore [] answers i).lookup definition = some name →
            (declaredBefore [] answers j).lookup definition = some name) ∧
      (∀ (i j : Nat) (node : Option SchemaNode), calls[i]? = some (.lower node) →
        calls[j]? = some (.lower node) → ∃ type,
          answers[i]?.map Prod.fst = some (.type type) ∧
          answers[j]?.map Prod.fst = some (.type type)) ∧
      ∀ i j : Nat, i < j → calls[i]? = some .namedTypes → calls[j]? = some .namedTypes →
        ∃ types types', answers[i]?.map Prod.fst = some (.namedTypes types) ∧
          answers[j]?.map Prod.fst = some (.namedTypes types') ∧ types <+: types' ∧
          (NothingNew [] calls answers i j → types' = types) := by
  obtain ⟨answers, last, hrun, hanswered, -⟩ := answered_fresh definitions calls
  refine ⟨answers, ⟨[], last⟩, hrun, fun i j hij => ?_, fun i j node hi hj => ?_,
    fun i j hij hi hj => hanswered.namedTypes_prefix hij hi hj⟩
  · have hstays := hanswered.prefix_declaredBefore hij
    exact ⟨hstays, fun definition name hname => hstays.lookup_eq_some hname⟩
  · rcases Nat.le_total i j with hij | hji
    · exact hanswered.lower_eq_of_le hij hi hj
    · obtain ⟨type, htype, htype'⟩ := hanswered.lower_eq_of_le hji hj hi
      exact ⟨type, htype', htype⟩

end SwaggerClient
