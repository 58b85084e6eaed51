import SwaggerClient.Proofs.TypeExpr.Operand

/-!
# Reading types back

The text of a type, at whatever position it is written, is read back to the normal form
of the type.
-/

namespace SwaggerClient.TypeText

variable {inner : Reader} {text : List Char}

/-! ## Types of any form -/

/-- Whether the texts of a type are read back to its normal form. -/
structure Reads (t : TypeExpr String) : Prop where
  operand : ∀ bound, (t.chars .operand).length ≤ bound →
    Operand (readType bound) (t.chars .operand) t.norm
  whole : ∀ position bound, (t.chars position).length ≤ bound →
    Whole (readType (bound + 1)) (t.chars position) t.norm

namespace Reads

variable {t : TypeExpr String}

/-- It is enough to read operands when the text is the same at all positions. -/
theorem of_operand (hsame : ∀ position, t.chars position = t.chars .operand)
    (h : ∀ bound, (t.chars .operand).length ≤ bound →
      Operand (readType bound) (t.chars .operand) t.norm) : Reads t where
  operand := h
  whole position bound hbound := by
    rw [hsame] at hbound ⊢
    exact (h bound hbound).whole

/-- It is enough to read a text that gets parentheses where it is an operand. -/
theorem of_whole (hwhole : ∀ bound, text.length ≤ bound → Whole (readType (bound + 1)) text t.norm)
    (hoperand : t.chars .operand = parenthesized true text)
    (hposition : ∀ position, t.chars position = text ∨ t.chars position = t.chars .operand) :
    Reads t := by
  have hread : ∀ bound, (t.chars .operand).length ≤ bound →
      Operand (readType bound) (t.chars .operand) t.norm := by
    intro bound hbound
    rw [hoperand] at hbound ⊢
    simp only [parenthesized, if_true, List.length_cons, List.length_append, List.length_nil]
      at hbound
    obtain ⟨bound, rfl⟩ : ∃ n, bound = n + 1 := Nat.exists_eq_add_one.2 (by omega)
    exact (hwhole bound (by omega)).parenthesized
  refine ⟨hread, fun position bound hbound => ?_⟩
  rcases hposition position with h | h
  · rw [h] at hbound ⊢
    exact hwhole bound hbound
  · rw [h] at hbound ⊢
    exact (hread bound hbound).whole

end Reads

theorem reads_primitive (kind : Primitive) : Reads (.primitive kind) := by
  refine .of_operand (fun _ => rfl) fun bound _ => ?_
  have hname : isIdentifier kind.name := by cases kind <;> decide
  have hread : Operand (readType bound) kind.name.toList (nameType kind.name) := operand_name hname
  rwa [nameType_primitive] at hread

theorem reads_reference {name : String} (h : isIdentifier name)
    (hkind : ∀ kind : Primitive, kind.name ≠ name) : Reads (.reference name) := by
  refine .of_operand (fun _ => rfl) fun bound _ => ?_
  have hread : Operand (readType bound) name.toList (nameType name) := operand_name h
  rwa [nameType_reference hkind] at hread

theorem reads_array {item : TypeExpr String} (h : Reads item) : Reads (.array item) := by
  refine .of_operand (fun _ => rfl) fun bound hbound => ?_
  rw [chars_array, List.length_append] at hbound
  exact (h.operand bound (by omega)).array

theorem reads_union {items : List (TypeExpr String)} (hne : items ≠ [])
    (h : ∀ item ∈ items, Reads item) : Reads (.union items) := by
  refine .of_whole ?_ (chars_union .operand items) ?_
  · intro bound hbound
    rw [TypeExpr.norm, TypeExpr.normAll_eq]
    refine whole_union _ _ hne fun item hi => (h item hi).operand bound ?_
    exact (length_le_joinWith '|' (List.mem_map_of_mem hi)).trans hbound
  · intro position
    rw [chars_union, chars_union]
    cases position
    · exact .inl rfl
    · exact .inr rfl
    · exact .inr rfl

theorem reads_intersection {items : List (TypeExpr String)} (hne : items ≠ [])
    (h : ∀ item ∈ items, Reads item) : Reads (.intersection items) := by
  refine .of_whole ?_ (chars_intersection .operand items) ?_
  · intro bound hbound
    rw [TypeExpr.norm, TypeExpr.normAll_eq]
    refine whole_intersection _ _ hne fun item hi => (h item hi).operand bound ?_
    exact (length_le_joinWith '&' (List.mem_map_of_mem hi)).trans hbound
  · intro position
    exact .inr (by rw [chars_intersection, chars_intersection])

theorem reads_literals {values : List Literal} (hne : values ≠ [])
    (h : ∀ value ∈ values, value.Spelled) : Reads (.literals values) := by
  have hwhole : ∀ bound, Whole (readType (bound + 1))
      (Text.joinWith ['|'] (values.map fun value => value.spelling.toList))
      (TypeExpr.literals values).norm := fun bound =>
    whole_union _ (fun value => .literals [value]) hne fun value hv => operand_literal (h value hv)
  rcases values with _ | ⟨value, _ | ⟨other, values⟩⟩
  · exact absurd rfl hne
  · -- A literal by itself gets no parentheses.
    refine .of_operand (fun position => ?_) fun bound _ => ?_
    · cases position <;> rfl
    · exact operand_literal (h value List.mem_cons_self)
  · refine .of_whole (fun bound _ => hwhole bound) rfl fun position => ?_
    cases position
    · exact .inl rfl
    · exact .inl rfl
    · exact .inr rfl

theorem reads_map {value : TypeExpr String} (h : Reads value) : Reads (.map value) := by
  refine .of_operand (fun _ => rfl) fun bound hbound => ?_
  rw [chars_map] at hbound ⊢
  simp only [List.length_cons, List.length_append] at hbound
  obtain ⟨bound, rfl⟩ : ∃ n, bound = n + 1 := Nat.exists_eq_add_one.2 (by omega)
  have hvalue := h.whole .member bound (by omega)
  refine operand_block fun rest => ?_
  have hindex := readBody_index hvalue
    (indexKey ++ value.chars .member ++ ['\x7d'] ++ rest).length rest (.inl rfl) (.inl rfl)
  simpa using hindex

/-- The end of an object type is read behind its members. -/
theorem readBody_indexLine {index : Option (TypeExpr String)}
    (h : ∀ value ∈ index, Whole inner (value.chars .member) value.norm) (rest : List Char)
    (steps : Nat) :
    readBody inner (steps + 1) (indexLine index ++ '\n' :: '\x7d' :: rest) =
      some (([], index.map TypeExpr.norm), rest) := by
  cases index with
  | none => exact readBody_end inner steps rest
  | some value =>
    have hindex := readBody_index (h value rfl) steps rest (.inr rfl) (.inr rfl)
    simpa [indexLine] using hindex

theorem reads_object {members : List (Member (TypeExpr String))} {index : Option (TypeExpr String)}
    (hm : ∀ m ∈ members, Reads m.type) (hi : ∀ value ∈ index, Reads value) :
    Reads (.object members index) := by
  by_cases hne : members ≠ [] ∨ index ≠ none
  · have hsame : ∀ position, (TypeExpr.object members index).chars position =
        (TypeExpr.object members index).chars .operand := by
      intro position
      rw [chars_object position hne, chars_object .operand hne]
    refine .of_operand hsame fun bound hbound => ?_
    rw [chars_object _ hne] at hbound ⊢
    rw [TypeExpr.norm_object_of_ne hne]
    simp only [List.length_cons, List.length_append, List.length_nil] at hbound
    obtain ⟨bound, rfl⟩ : ∃ n, bound = n + 1 := Nat.exists_eq_add_one.2 (by omega)
    have hmembers : ∀ m ∈ members,
        Whole (readType (bound + 1)) (m.type.chars .member) m.type.norm := by
      intro m hmem
      have hle := length_le_memberLines hmem
      exact (hm m hmem).whole .member bound (by omega)
    have hindex : ∀ value ∈ index,
        Whole (readType (bound + 1)) (value.chars .member) value.norm := by
      intro value hmem
      have hle := length_le_indexLine hmem
      exact (hi value hmem).whole .member bound (by omega)
    refine operand_block fun rest => ?_
    have htail : Ahead ['\n'] (indexLine index ++ '\n' :: '\x7d' :: rest) := by
      cases index <;> exact Ahead.cons (by decide) _
    have hsteps : members.length <
        (members.flatMap memberLine ++ indexLine index ++ ['\n', '\x7d'] ++ rest).length + 1 := by
      have hle := length_le_length_memberLines members
      simp only [List.length_append]
      omega
    have hread := readBody_memberLines hmembers (readBody_indexLine hindex rest) htail hsteps
    simpa using hread
  · simp only [not_or, ne_eq, not_not] at hne
    obtain ⟨rfl, rfl⟩ := hne
    exact ⟨(reads_primitive .unknown).operand, (reads_primitive .unknown).whole⟩

/-! ## All types -/

theorem reads_of_wellFormed {t : TypeExpr String} (h : t.WellFormed)
    (hnames : ∀ name ∈ t.references, TypeExpr.IsReferenceName name) : Reads t := by
  induction h with
  | primitive kind => exact reads_primitive kind
  | object _ _ ihm ihi =>
    rw [TypeExpr.references_object] at hnames
    refine reads_object (fun m hm => ihm m hm fun name hn => ?_)
      fun value hv => ihi value hv fun name hn => ?_
    · exact hnames name (List.mem_append_left _ (List.mem_flatMap.2 ⟨m, hm, hn⟩))
    · exact hnames name (List.mem_append_right _
        (List.mem_flatMap.2 ⟨value, Option.mem_toList.2 hv, hn⟩))
  | array _ ih => exact reads_array (ih hnames)
  | union hne _ ih =>
    rw [TypeExpr.references, TypeExpr.referencesOfAll_eq] at hnames
    refine reads_union hne fun item hi => ih item hi fun name hn => ?_
    exact hnames name (List.mem_flatMap.2 ⟨item, hi, hn⟩)
  | intersection hne _ ih =>
    rw [TypeExpr.references, TypeExpr.referencesOfAll_eq] at hnames
    refine reads_intersection hne fun item hi => ih item hi fun name hn => ?_
    exact hnames name (List.mem_flatMap.2 ⟨item, hi, hn⟩)
  | literals hne hv => exact reads_literals hne hv
  | reference name =>
    obtain ⟨hname, hkind⟩ := hnames name (List.mem_singleton_self name)
    exact reads_reference hname hkind
  | map _ ih => exact reads_map (ih hnames)

/-- The text of a type at any position is read back to the normal form of the type. -/
theorem read_renderAt {t : TypeExpr String} (h : t.Readable) (position : Position) :
    read (t.renderAt position) = some t.norm := by
  have hreads := reads_of_wellFormed h.wellFormed h.references
  have hread := hreads.whole position _ le_rfl [] (Ahead.nil typeEnds)
  rw [List.append_nil] at hread
  rw [read, TypeExpr.renderAt, String.toList_ofList, hread]
  rfl

end SwaggerClient.TypeText
