import SwaggerClient.Proofs.Schema.Lowering

/-!
# The definitions in progress

What is known in the course of calls to lower schemas and what has been declared: every
call gives an answer, none leaves a definition in progress, and at no moment is a
definition in progress twice.
-/

namespace SwaggerClient

open LoweringState (lowering replace)

/-! ## States that hold more than a lowering -/

section Mirrors

variable {σ α β : Type} [LoweringState σ]

/-- Whether a computation does with the lowering in a state what another one does with a
lowering alone, and leaves in progress what was so before. -/
def Mirrors (x : LoweringM σ α) (y : LoweringM Lowering α) : Prop :=
  ∀ s, y.run (lowering s) = (x.run s).map (fun p => (p.1, lowering p.2)) ∧
    ∀ a t, x.run s = some (a, t) → (lowering t).inProgress = (lowering s).inProgress

namespace Mirrors

theorem pure (a : α) : Mirrors (pure a : LoweringM σ α) (pure a) := by
  intro s
  refine ⟨rfl, fun b t h => ?_⟩
  obtain ⟨-, rfl⟩ : a = b ∧ s = t := by simpa using h
  rfl

theorem bind {x : LoweringM σ α} {y : LoweringM Lowering α} {f : α → LoweringM σ β}
    {g : α → LoweringM Lowering β} (hx : Mirrors x y) (hf : ∀ a, Mirrors (f a) (g a)) :
    Mirrors (x >>= f) (y >>= g) := by
  intro s
  obtain ⟨hrun, hkeep⟩ := hx s
  rw [StateT.run_bind, StateT.run_bind, hrun]
  cases hxs : x.run s with
  | none => exact ⟨rfl, by simp⟩
  | some p =>
    obtain ⟨a, t⟩ := p
    obtain ⟨hrest, hkeeprest⟩ := hf a t
    exact ⟨hrest, fun b u hu => (hkeeprest b u hu).trans (hkeep a t hxs)⟩

theorem mapM {f : α → LoweringM σ β} {g : α → LoweringM Lowering β} (as : List α)
    (h : ∀ a ∈ as, Mirrors (f a) (g a)) : Mirrors (as.mapM f) (as.mapM g) := by
  induction as with
  | nil => exact pure []
  | cons a as ih =>
    rw [List.mapM_cons, List.mapM_cons]
    exact (h a List.mem_cons_self).bind fun _ =>
      (ih fun b hb => h b (List.mem_cons_of_mem _ hb)).bind fun _ => pure _

theorem failure : Mirrors (failure : LoweringM σ α) failure :=
  fun _ => ⟨rfl, by simp⟩

theorem known : Mirrors (LoweringM.known : LoweringM σ Lowering) LoweringM.known := by
  intro s
  refine ⟨rfl, fun a t h => ?_⟩
  obtain ⟨-, rfl⟩ : lowering s = a ∧ s = t := by simpa [LoweringM.known] using h
  rfl

theorem declare (definition : String) :
    Mirrors (LoweringM.declare definition : LoweringM σ _) (LoweringM.declare definition) := by
  intro s
  refine ⟨?_, fun a t h => ?_⟩
  · simp [LoweringM.declare, LoweringM.known]
  · obtain ⟨-, rfl⟩ := by simpa [LoweringM.declare, LoweringM.known] using h
    simp

/-- What is begun before and left after is not in progress any more. -/
theorem within {x : LoweringM σ α} {y : LoweringM Lowering α} (definition : String)
    (hx : Mirrors x y) :
    Mirrors
      (do
        LoweringM.enter definition
        let a ← x
        LoweringM.leave
        return a)
      (do
        LoweringM.enter definition
        let a ← y
        LoweringM.leave
        return a) := by
  intro s
  obtain ⟨hrun, hkeep⟩ := hx (replace
    { lowering s with inProgress := definition :: (lowering s).inProgress } s)
  rw [LoweringState.lowering_replace] at hrun hkeep
  simp only [LoweringM.enter, LoweringM.leave, LoweringM.known]
  constructor
  · simp only [bind_pure, bind_pure_comp, map_bind, bind_map_left, StateT.run_bind, StateT.run_get,
      StateT.run_modify, StateT.run_map, Option.pure_def, Option.bind_eq_bind, Option.bind_some,
      Option.map_eq_map, Option.map_some, Option.bind_map, Option.map_bind, Function.comp_def, hrun,
      LoweringState.lowering_replace, lowering_self, replace_self]
  · intro b u h
    obtain ⟨t, hx, hu⟩ : ∃ t, x.run (replace
        { lowering s with inProgress := definition :: (lowering s).inProgress } s) = some (b, t) ∧
        replace { lowering t with inProgress := (lowering t).inProgress.tail } t = u := by
      simpa [Option.bind_eq_some_iff] using h
    rw [← hu, LoweringState.lowering_replace, hkeep b t hx]
    rfl

/-- A kind mirrors when the parts of its node do. -/
theorem kind {members : LoweringM σ (List (Member (TypeExpr String)))}
    {item : LoweringM σ (TypeExpr String)} {value : LoweringM σ (Option (TypeExpr String))}
    {members' : LoweringM Lowering (List (Member (TypeExpr String)))}
    {item' : LoweringM Lowering (TypeExpr String)}
    {value' : LoweringM Lowering (Option (TypeExpr String))} (hm : Mirrors members members')
    (hi : Mirrors item item') (hv : Mirrors value value') (kind : Kind) :
    Mirrors (kind.lower members item value) (kind.lower members' item' value') := by
  cases kind with
  | object => exact hm.bind fun _ => hv.bind fun _ => pure _
  | array => exact hi.bind fun _ => pure _
  | string | number | boolean | void => exact pure _
  | unrecognized | missing => exact hv.bind fun _ => pure _

variable {follow : String → LoweringM σ (TypeExpr String)}
  {follow' : String → LoweringM Lowering (TypeExpr String)}

theorem nodeKind {node : SchemaNode}
    (h : ∀ part ∈ node.parts, Mirrors (part.lower follow) (part.lower follow')) (kind : Kind) :
    Mirrors (node.lowerKind follow kind) (node.lowerKind follow' kind) := by
  refine Mirrors.kind ?_ ?_ ?_ kind
  · rw [lowerProperties_eq, lowerProperties_eq]
    exact mapM _ fun p hp => (h p.2 (SchemaNode.mem_parts_of_properties hp)).bind fun _ => pure _
  · cases hi : node.items with
    | none => exact pure _
    | some item => exact h item (SchemaNode.mem_parts_of_items hi)
  · cases hv : node.additionalSchema with
    | none => exact pure _
    | some value => exact (h value (SchemaNode.mem_parts_of_additional hv)).bind fun _ => pure _

/-- A node mirrors when the names it refers to do. -/
theorem node (hf : ∀ name, Mirrors (follow name) (follow' name)) (node : SchemaNode) :
    Mirrors (node.lower follow) (node.lower follow') := by
  induction node using SchemaNode.induct with
  | step node ih =>
    rw [SchemaNode.lower_eq, SchemaNode.lower_eq]
    cases hform : node.form with
    | reference name => exact hf name
    | allOf nodes =>
      have hall := mapM nodes fun n hn =>
        ih n (SchemaNode.mem_parts_of_allOf (SchemaNode.allOf_of_form hform ▸ hn))
      rw [← lowerAll_eq, ← lowerAll_eq] at hall
      exact hall.bind fun _ => pure _
    | anyOf nodes =>
      have hall := mapM nodes fun n hn =>
        ih n (SchemaNode.mem_parts_of_anyOf (SchemaNode.anyOf_of_form hform ▸ hn))
      rw [← lowerAll_eq, ← lowerAll_eq] at hall
      exact hall.bind fun _ => pure _
    | values values => exact pure _
    | kinds kinds =>
      have hkinds := mapM kinds fun kind _ => nodeKind ih kind
      rcases kinds with _ | ⟨kind, _ | ⟨kind', kinds⟩⟩
      · exact hkinds.bind fun _ => pure _
      · exact nodeKind ih kind
      · exact hkinds.bind fun _ => pure _

theorem reference (definitions : Definitions) (bound : Nat) (name : String) :
    Mirrors (definitions.lowerReference bound name : LoweringM σ (TypeExpr String))
      (definitions.lowerReference bound name) := by
  induction bound using Nat.strongRecOn generalizing name with
  | ind bound ih =>
    unfold Definitions.lowerReference
    cases definitions.get? name with
    | none => exact pure _
    | some node =>
      refine known.bind fun l => ?_
      by_cases hm : l.inProgress.contains name
      · rw [if_pos hm, if_pos hm]
        exact (declare name).bind fun _ => pure _
      · rw [if_neg hm, if_neg hm]
        cases bound with
        | zero => exact failure
        | succ bound => exact within name (Mirrors.node (ih bound (Nat.lt_succ_self bound)) node)

theorem lowerNode (definitions : Definitions) (node : SchemaNode) :
    Mirrors (definitions.lowerNode node : LoweringM σ (TypeExpr String))
      (definitions.lowerNode node) :=
  Mirrors.node (reference definitions _) node

theorem lowerDeclaredFrom (definitions : Definitions) (steps position : Nat) :
    Mirrors (definitions.lowerDeclaredFrom steps position : LoweringM σ (List NamedType))
      (definitions.lowerDeclaredFrom steps position) := by
  induction steps generalizing position with
  | zero => exact failure
  | succ steps ih =>
    rw [Definitions.lowerDeclaredFrom_succ, Definitions.lowerDeclaredFrom_succ]
    refine known.bind fun l => ?_
    cases l.declared[position]? with
    | none => exact pure _
    | some entry =>
      cases hnode : definitions.get? entry.1 with
      | none =>
        simp only [hnode]
        exact ih (position + 1)
      | some node =>
        simp only [hnode]
        exact (within entry.1 (lowerNode definitions node)).bind fun _ =>
          (ih (position + 1)).bind fun _ => pure _

end Mirrors

end Mirrors

/-! ## Everything that is known in a run -/

/-- A lowering together with what it was before, the last first. -/
structure History where
  now : Lowering := {}
  past : List Lowering := []

namespace History

instance : LoweringState History where
  lowering h := h.now
  replace l h := ⟨l, h.now :: h.past⟩
  lowering_replace _ _ := rfl

/-- What has been known at one moment or another, the last first. -/
def moments (h : History) : List Lowering :=
  h.now :: h.past

/-- Whether a history begins with nothing known and goes on by steps of a lowering. -/
inductive Runs (definitions : Definitions) : History → Prop
  | start : Runs definitions {}
  | step {h : History} {l : Lowering} (hr : Runs definitions h) (hs : h.now.Step definitions l) :
      Runs definitions ⟨l, h.now :: h.past⟩

variable {definitions : Definitions} {h : History}

theorem Runs.sound (hr : Runs definitions h) : ∀ l ∈ h.moments, l.Sound definitions := by
  induction hr with
  | start => simpa [moments] using Lowering.Sound.start definitions
  | step hr hs ih =>
    exact List.forall_mem_cons.2 ⟨(ih _ List.mem_cons_self).step hs, ih⟩

/-- Declarations stay, and new ones come at the end. -/
theorem Runs.pairwise (hr : Runs definitions h) :
    h.moments.Pairwise fun later earlier => earlier.declared <+: later.declared := by
  induction hr with
  | start => exact List.pairwise_singleton _ _
  | @step h l hr hs ih =>
    refine List.pairwise_cons.2 ⟨fun m hm => ?_, ih⟩
    rcases List.mem_cons.1 hm with rfl | hm
    · exact hs.prefix_declared
    · exact ((List.pairwise_cons.1 ih).1 m hm).trans hs.prefix_declared

theorem invariant_runs (definitions : Definitions) : Invariant definitions (Runs definitions) where
  sound hr := hr.sound _ List.mem_cons_self
  step hr hs := hr.step hs

end History

/-! ## Calls -/

/-- A call on a lowering from outside. -/
inductive LoweringCall where
  | lower (node : Option SchemaNode)
  | namedTypes

/-- What a call gives. -/
inductive LoweringAnswer where
  | type (type : TypeExpr String)
  | namedTypes (types : List NamedType)

section Calls

variable {σ : Type} [LoweringState σ] (definitions : Definitions)

/-- Answers a call. -/
def LoweringCall.answer : LoweringCall → LoweringM σ LoweringAnswer
  | .lower node => do
    let type ← definitions.lowerOptional node
    return .type type
  | .namedTypes => do
    let types ← definitions.lowerDeclared
    return .namedTypes types

/-- Answers calls one after the other, and tells with every answer what is known after
it. -/
def answerAll (calls : List LoweringCall) : LoweringM σ (List (LoweringAnswer × Lowering)) :=
  calls.mapM fun call => do
    let answer ← call.answer definitions
    let l ← LoweringM.known
    return (answer, l)

/-- What the answer to a call is and what is known after it: no definition is in
progress, and the named types are those of the declarations, in order. -/
def LoweringCall.Answers : LoweringCall → LoweringAnswer × Lowering → Prop
  | .lower _, (answer, l) => l.inProgress = [] ∧ ∃ type, answer = .type type
  | .namedTypes, (answer, l) => l.inProgress = [] ∧
      ∃ types, answer = .namedTypes types ∧ types.map (·.name) = l.declared.map Prod.snd

theorem LoweringCall.mirrors_answer (call : LoweringCall) :
    Mirrors (call.answer definitions : LoweringM σ LoweringAnswer) (call.answer definitions) := by
  cases call with
  | lower node =>
    cases node with
    | none => exact (Mirrors.pure _).bind fun _ => .pure _
    | some node => exact (Mirrors.lowerNode definitions node).bind fun _ => .pure _
  | namedTypes => exact (Mirrors.lowerDeclaredFrom definitions _ _).bind fun _ => .pure _

theorem mirrors_answerAll (calls : List LoweringCall) :
    Mirrors (answerAll definitions calls : LoweringM σ (List (LoweringAnswer × Lowering)))
      (answerAll definitions calls) :=
  Mirrors.mapM calls fun call _ => (call.mirrors_answer definitions).bind fun _ =>
    Mirrors.known.bind fun _ => .pure _

variable {definitions} {I : σ → Prop}

/-- What a call gives, and what is declared after it: to lower a node declares the targets in
its expansion and names them, and to give the named types declares what they need. -/
def LoweringCall.Gives (definitions : Definitions) (declared later : Declarations) :
    LoweringCall → LoweringAnswer → Prop
  | .lower node, answer =>
    later = declared.declareTargets (definitions.expandOptional node).references ∧
      answer = .type ((definitions.expandOptional node).mapReferences later.nameOf)
  | .namedTypes, answer =>
    definitions.Declares 0 declared later ∧
      answer = .namedTypes (later.map (definitions.namedType later))

/-- Whether calls one after the other get some answers, from what is declared before the first
call to what is declared after the last one. -/
inductive Answered (definitions : Definitions) :
    Declarations → List LoweringCall → List (LoweringAnswer × Lowering) → Declarations → Prop
  | nil {declared : Declarations} : Answered definitions declared [] [] declared
  | cons {declared later last : Declarations} {call : LoweringCall} {calls : List LoweringCall}
      {answer : LoweringAnswer} {answers : List (LoweringAnswer × Lowering)}
      (h : call.Gives definitions declared later answer)
      (hrest : Answered definitions later calls answers last) :
      Answered definitions declared (call :: calls) ((answer, ⟨[], later⟩) :: answers) last

theorem LoweringCall.Gives.answers {call : LoweringCall} {declared later : Declarations}
    {answer : LoweringAnswer} (h : call.Gives definitions declared later answer) :
    call.Answers (answer, ⟨[], later⟩) := by
  cases call with
  | lower node => exact ⟨rfl, _, h.2⟩
  | namedTypes =>
    refine ⟨rfl, _, h.2, ?_⟩
    rw [List.map_map]
    rfl

theorem Answered.forall₂ {declared last : Declarations} {calls : List LoweringCall}
    {answers : List (LoweringAnswer × Lowering)}
    (h : Answered definitions declared calls answers last) :
    List.Forall₂ LoweringCall.Answers calls answers := by
  induction h with
  | nil => exact .nil
  | cons h _ ih => exact .cons h.answers ih

theorem LoweringCall.gives_answer (hI : Invariant definitions I) (call : LoweringCall) {s : σ}
    (hs : I s) (he : (lowering s).inProgress = []) :
    ∃ answer t, (call.answer definitions).run s = some (answer, t) ∧ I t ∧
      (lowering t).inProgress = [] ∧
      call.Gives definitions (lowering s).declared (lowering t).declared answer := by
  cases call with
  | lower node =>
    obtain ⟨type, t, hrun, ht, hlt, htype⟩ :=
      Definitions.lowersTo_lowerOptional hI node s hs he
    exact ⟨.type type, t, by simp [answer, hrun], ht, by rw [hlt], by rw [hlt],
      by rw [htype _ List.prefix_rfl]⟩
  | namedTypes =>
    obtain ⟨t, hrun, ht, het, hst⟩ := definitions.lowerDeclared_spec hI hs he
    exact ⟨_, t, by simp [answer, hrun], ht, het, hst, rfl⟩

theorem answered_answerAll (hI : Invariant definitions I) (calls : List LoweringCall) {s : σ}
    (hs : I s) (he : (lowering s).inProgress = []) :
    ∃ answers t, (answerAll definitions calls).run s = some (answers, t) ∧ I t ∧
      (lowering t).inProgress = [] ∧
      Answered definitions (lowering s).declared calls answers (lowering t).declared := by
  induction calls generalizing s with
  | nil => exact ⟨[], s, rfl, hs, he, .nil⟩
  | cons call calls ih =>
    obtain ⟨answer, t, hrun, ht, het, hgives⟩ := call.gives_answer hI hs he
    obtain ⟨answers, u, hrest, hu, heu, hanswered⟩ := ih ht het
    refine ⟨(answer, ⟨[], (lowering t).declared⟩) :: answers, u, ?_, hu, heu,
      .cons hgives hanswered⟩
    have hone : (do
        let answer ← call.answer definitions
        let l ← LoweringM.known
        return (answer, l)).run s = some ((answer, lowering t), t) := by
      simp [LoweringM.known, hrun]
    change (answerAll definitions calls).run t = _ at hrest
    rw [← het, answerAll, List.mapM_cons, StateT.run_bind, hone]
    change (answerAll definitions calls >>= fun rest =>
      pure ((answer, lowering t) :: rest)).run t = _
    rw [StateT.run_bind, hrest]
    rfl

/-- Calls on a fresh lowering get answers. -/
theorem answered_fresh (definitions : Definitions) (calls : List LoweringCall) :
    ∃ answers last, (answerAll definitions calls).run ({} : Lowering) = some (answers, ⟨[], last⟩) ∧
      Answered definitions [] calls answers last ∧ last.Sound definitions := by
  obtain ⟨answers, ⟨inProgress, last⟩, hrun, hl, he, hanswered⟩ :=
    answered_answerAll (Lowering.invariant_sound definitions) calls (.start definitions) rfl
  obtain rfl : inProgress = [] := he
  exact ⟨answers, last, hrun, hanswered, hl.declared⟩

theorem answerAll_spec (hI : Invariant definitions I) (calls : List LoweringCall) {s : σ}
    (hs : I s) (he : (lowering s).inProgress = []) :
    ∃ answers t, (answerAll definitions calls).run s = some (answers, t) ∧ I t ∧
      List.Forall₂ LoweringCall.Answers calls answers := by
  obtain ⟨answers, t, hrun, ht, -, hanswered⟩ := answered_answerAll hI calls hs he
  exact ⟨answers, t, hrun, ht, hanswered.forall₂⟩

end Calls

/-- Calls one after the other all get an answer, whatever the definitions.  At every
moment no definition is in progress twice, those in progress are there, the declared
ones are there, each declared once, and what was declared before comes first.  After
every call nothing is in progress, and the named types are one for each declaration, in
order.  To keep a history changes nothing about the answers.  Every name and every node,
wherever it is lowered, leaves in progress what was so before. -/
theorem lowering_discipline (definitions : Definitions) (calls : List LoweringCall) :
    (∃ answers history, (answerAll definitions calls).run ({} : History) = some (answers, history) ∧
      (answerAll definitions calls).run ({} : Lowering) = some (answers, history.now) ∧
      List.Forall₂ LoweringCall.Answers calls answers ∧
      (∀ l ∈ history.moments, l.inProgress.Nodup ∧ l.inProgress ⊆ definitions.keys ∧
        (l.declared.map Prod.fst).Nodup ∧ l.declared.map Prod.fst ⊆ definitions.keys) ∧
      history.moments.Pairwise fun later earlier => earlier.declared <+: later.declared) ∧
    ∀ (bound : Nat) (s t : History) (type : TypeExpr String),
      (∀ name, (definitions.lowerReference bound name).run s = some (type, t) →
        t.now.inProgress = s.now.inProgress) ∧
      ∀ node : SchemaNode, (node.lower (definitions.lowerReference bound)).run s = some (type, t) →
        t.now.inProgress = s.now.inProgress := by
  constructor
  · obtain ⟨answers, history, hrun, hruns, hanswers⟩ :=
      answerAll_spec (History.invariant_runs definitions) calls .start rfl
    have hplain := (mirrors_answerAll definitions calls ({} : History)).1
    rw [hrun] at hplain
    refine ⟨answers, history, hrun, hplain, hanswers, fun l hl => ?_, hruns.pairwise⟩
    have hl := hruns.sound l hl
    exact ⟨hl.nodup, hl.subset, hl.declared.nodup, hl.declared.subset⟩
  · intro bound s t type
    have hname : ∀ name, Mirrors (definitions.lowerReference bound name : LoweringM History _) _ :=
      Mirrors.reference definitions bound
    exact ⟨fun name => (hname name s).2 type t, fun node => (Mirrors.node hname node s).2 type t⟩

end SwaggerClient
