import Mathlib.Data.List.Infix

/-!
# Reading what was written

Readers that take the first part of a text and give what it says together with the rest: one of
some values, values one after the other, and values with a separator between them.  Each of them
reads back what was written, whatever stands behind it.
-/

namespace SwaggerClient.Text

variable {α β : Type}

/-! ## One of some values -/

/-- Reads one of some values: the first of them whose text comes first. -/
def readOneOf (text : α → List Char) (values : List α) (cs : List Char) : Option (α × List Char) :=
  values.findSome? fun a => (cs.dropPrefix? (text a)).map fun rest => (a, rest)

theorem dropPrefix?_append (start rest : List Char) :
    (start ++ rest).dropPrefix? start = some rest :=
  List.dropPrefix?_append_of_beq rest (beq_self_eq_true start)

theorem dropPrefix?_eq_some_iff {start cs rest : List Char} :
    cs.dropPrefix? start = some rest ↔ cs = start ++ rest := by
  simp [List.dropPrefix?_eq_some_iff]

/-- A value is read back when no other one has a text that comes first too. -/
theorem readOneOf_append {text : α → List Char} {values : List α} {a : α} {rest : List Char}
    (ha : a ∈ values) (hfree : ∀ b ∈ values, text b <+: text a ++ rest → b = a) :
    readOneOf text values (text a ++ rest) = some (a, rest) := by
  induction values with
  | nil => cases ha
  | cons b values ih =>
    obtain ⟨hb, hvalues⟩ := List.forall_mem_cons.1 hfree
    rw [readOneOf, List.findSome?_cons]
    cases hread : (text a ++ rest).dropPrefix? (text b) with
    | some rest' =>
      have heq := dropPrefix?_eq_some_iff.1 hread
      obtain rfl := hb ⟨rest', heq.symm⟩
      obtain rfl := List.append_cancel_left heq
      rfl
    | none =>
      rcases List.mem_cons.1 ha with rfl | ha
      · simp [dropPrefix?_append] at hread
      · exact ih ha hvalues

/-- Nothing is read when the text begins otherwise than each of the values. -/
theorem readOneOf_eq_none {text : α → List Char} {values : List α} {cs : List Char}
    (h : ∀ a ∈ values, ¬ text a <+: cs) : readOneOf text values cs = none := by
  refine List.findSome?_eq_none_iff.2 fun a ha => ?_
  rw [Option.map_eq_none_iff, Option.eq_none_iff_forall_ne_some]
  intro rest hread
  exact h a ha ⟨rest, (dropPrefix?_eq_some_iff.1 hread).symm⟩

/-! ## Values in a row -/

variable (item : List Char → Option (α × List Char))

/-- Reads values as long as there is one, at most as many as there are steps. -/
def readWhile : Nat → List Char → List α × List Char
  | 0, cs => ([], cs)
  | steps + 1, cs =>
    match item cs with
    | none => ([], cs)
    | some (a, rest) =>
      let (as, rest) := readWhile steps rest
      (a :: as, rest)

/-- Reads values with a separator between them up to what closes them, at most as many as there
are steps. -/
def readItems (separator close : List Char) : Nat → List Char → Option (List α × List Char)
  | 0, _ => none
  | steps + 1, cs => do
    let (a, cs) ← item cs
    match cs.dropPrefix? separator with
    | some cs => do
      let (as, cs) ← readItems separator close steps cs
      return (a :: as, cs)
    | none => do
      let cs ← cs.dropPrefix? close
      return ([a], cs)

variable {item}

/-- Values are read back one after the other, up to where none can be read. -/
theorem readWhile_flatMap {text : β → List Char} {value : β → α} {bs : List β} {rest : List Char}
    (hitem : ∀ b ∈ bs, ∀ behind, item (text b ++ behind) = some (value b, behind))
    (hstop : item rest = none) {steps : Nat} (hsteps : bs.length ≤ steps) :
    readWhile item steps (bs.flatMap text ++ rest) = (bs.map value, rest) := by
  induction bs generalizing steps with
  | nil => cases steps <;> simp [readWhile, hstop]
  | cons b bs ih =>
    cases steps with
    | zero => simp at hsteps
    | succ steps =>
      obtain ⟨hb, hbs⟩ := List.forall_mem_cons.1 hitem
      have hlater := ih hbs (Nat.le_of_succ_le_succ hsteps)
      rw [List.flatMap_cons, List.append_assoc, readWhile, hb]
      simp [hlater]

/-- There are no more texts than characters, when each text has one. -/
theorem length_le_flatMap {text : β → List Char} (hne : ∀ b, text b ≠ []) (bs : List β) :
    bs.length ≤ (bs.flatMap text).length := by
  induction bs with
  | nil => simp
  | cons b bs ih =>
    have hpos := List.length_pos_iff.2 (hne b)
    rw [List.flatMap_cons, List.length_append, List.length_cons]
    omega

/-- Values that are read back one by one are read back together. -/
theorem readItems_intercalate {text : β → List Char} {value : β → α} {separator close : List Char}
    (hclose : ∀ rest, (close ++ rest).dropPrefix? separator = none) {bs : List β}
    (hitem : ∀ b ∈ bs, ∀ stop ∈ [separator, close], ∀ rest,
      item (text b ++ (stop ++ rest)) = some (value b, stop ++ rest))
    (hne : bs ≠ []) {steps : Nat} (hsteps : bs.length ≤ steps) (rest : List Char) :
    readItems item separator close steps
        (separator.intercalate (bs.map text) ++ (close ++ rest)) = some (bs.map value, rest) := by
  induction bs generalizing steps with
  | nil => exact absurd rfl hne
  | cons b bs ih =>
    obtain ⟨hb, hbs⟩ := List.forall_mem_cons.1 hitem
    cases steps with
    | zero => simp at hsteps
    | succ steps =>
      cases bs with
      | nil =>
        have hread := hb close (by simp) rest
        simp [readItems, hread, hclose, dropPrefix?_append]
      | cons b' bs =>
        have hlater := ih hbs (List.cons_ne_nil b' bs) (Nat.le_of_succ_le_succ hsteps)
        generalize htail :
          separator.intercalate ((b' :: bs).map text) ++ (close ++ rest) = tail at hlater
        have htext : separator.intercalate ((b :: b' :: bs).map text) ++ (close ++ rest) =
            text b ++ (separator ++ tail) := by
          rw [← htail]
          simp
        have hread := hb separator (by simp) tail
        rw [htext, readItems, hread]
        simp [dropPrefix?_append, hlater]

/-- There is a separator between any two texts, so their number is bounded by their length. -/
theorem length_le_intercalate (separator : List Char) (hne : separator ≠ [])
    (texts : List (List Char)) : texts.length ≤ (separator.intercalate texts).length + 1 := by
  have hpos := List.length_pos_iff.2 hne
  induction texts with
  | nil => simp
  | cons text texts ih =>
    cases texts with
    | nil => simp
    | cons text' texts =>
      simp only [List.intercalate_cons_cons, List.length_append, List.length_cons] at ih ⊢
      omega

end SwaggerClient.Text
