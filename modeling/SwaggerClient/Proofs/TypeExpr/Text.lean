import SwaggerClient.Proofs.TypeExpr.Reader

/-!
# The texts of types

The text of a type made of the texts of its parts, and how long those are at most.
-/

namespace SwaggerClient.TypeText

variable (position : Position)

theorem chars_array (item : TypeExpr String) :
    (TypeExpr.array item).chars position = item.chars .operand ++ ['[', ']'] :=
  rfl

theorem chars_map (value : TypeExpr String) :
    (TypeExpr.map value).chars position =
      '\x7b' :: (indexKey ++ value.chars .member ++ ['\x7d']) :=
  rfl

theorem operandChars_eq (items : List (TypeExpr String)) :
    TypeExpr.operandChars items = items.map (TypeExpr.chars .operand) := by
  induction items with
  | nil => rfl
  | cons item items ih =>
    rw [List.map_cons, ← ih]
    rfl

theorem chars_union (items : List (TypeExpr String)) :
    (TypeExpr.union items).chars position =
      parenthesized (position != .top)
        (Text.joinWith ['|'] (items.map (TypeExpr.chars .operand))) := by
  rw [← operandChars_eq]
  rfl

theorem chars_intersection (items : List (TypeExpr String)) :
    (TypeExpr.intersection items).chars position =
      parenthesized true (Text.joinWith ['&'] (items.map (TypeExpr.chars .operand))) := by
  rw [← operandChars_eq]
  rfl

/-- The text of a member on a line of its own. -/
def memberLine (m : Member (TypeExpr String)) : List Char :=
  '\n' :: keyHead m.doc (memberKey m.name m.optional) ++ m.type.chars .member

/-- The text of the dynamic key of an object type, should it have one. -/
def indexLine : Option (TypeExpr String) → List Char
  | none => []
  | some value => '\n' :: (indexKey ++ value.chars .member)

theorem memberLines_eq (members : List (Member (TypeExpr String))) :
    TypeExpr.memberLines members = members.flatMap memberLine := by
  induction members with
  | nil => rfl
  | cons m members ih =>
    rw [List.flatMap_cons, ← ih]
    rfl

theorem chars_object {members : List (Member (TypeExpr String))} {index : Option (TypeExpr String)}
    (h : members ≠ [] ∨ index ≠ none) :
    (TypeExpr.object members index).chars position =
      '\x7b' :: (members.flatMap memberLine ++ indexLine index ++ ['\n', '\x7d']) := by
  rw [← memberLines_eq]
  cases members with
  | cons m members => cases index <;> rfl
  | nil =>
    cases index with
    | some value => rfl
    | none => simp at h

/-! ## Lengths -/

theorem length_le_length_joinWith (sep : Char) (pieces : List (List Char)) :
    pieces.length ≤ (Text.joinWith [sep] pieces).length + 1 := by
  induction pieces using Text.joinWith.induct with
  | case1 => simp
  | case2 piece => simp
  | case3 piece pieces hne ih =>
    rw [Text.joinWith]
    · simp only [List.length_cons, List.length_append, List.length_nil]
      omega
    · exact hne

theorem length_le_joinWith (sep : Char) {piece : List Char} {pieces : List (List Char)}
    (h : piece ∈ pieces) : piece.length ≤ (Text.joinWith [sep] pieces).length := by
  induction pieces using Text.joinWith.induct with
  | case1 => cases h
  | case2 only => simp [Text.joinWith, List.mem_singleton.1 h]
  | case3 first pieces hne ih =>
    rw [Text.joinWith]
    · rw [List.length_append, List.length_append]
      rcases List.mem_cons.1 h with rfl | h
      · omega
      · have := ih h
        omega
    · exact hne

section Members

variable {members : List (Member (TypeExpr String))}

theorem length_le_length_memberLines (members : List (Member (TypeExpr String))) :
    members.length ≤ (members.flatMap memberLine).length := by
  induction members with
  | nil => simp
  | cons m members ih =>
    simp only [List.length_cons, List.flatMap_cons, List.length_append, memberLine]
    omega

theorem length_le_memberLines {m : Member (TypeExpr String)} (hm : m ∈ members) :
    (m.type.chars .member).length ≤ (members.flatMap memberLine).length := by
  have hline : (memberLine m).length ≤ (members.flatMap memberLine).length := by
    rw [List.flatMap_def]
    exact (List.sublist_flatten_of_mem (List.mem_map_of_mem hm)).length_le
  refine Nat.le_trans ?_ hline
  rw [memberLine, List.length_append]
  exact Nat.le_add_left _ _

theorem length_le_indexLine {value : TypeExpr String} {index : Option (TypeExpr String)}
    (h : value ∈ index) : (value.chars .member).length ≤ (indexLine index).length := by
  rw [Option.mem_def.1 h, indexLine, List.length_cons, List.length_append]
  omega

end Members

end SwaggerClient.TypeText
