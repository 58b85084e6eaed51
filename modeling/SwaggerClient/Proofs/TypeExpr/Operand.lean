import SwaggerClient.Proofs.TypeExpr.Text
import SwaggerClient.Proofs.TypeExpr.Token

/-!
# Reading operands

What a text is read as when more text stands behind it: operands, operands with
operators between them, and what stands between braces.
-/

namespace SwaggerClient.TypeText

variable {inner : Reader} {text rest : List Char} {type : TypeExpr String}

/-! ## What a text is read as -/

/-- The characters that may stand behind an operand. -/
def operandEnds : List Char :=
  ['[', '&', '|', ')', '\n', '\x7d']

/-- The characters that may stand behind a type. -/
def typeEnds : List Char :=
  [')', '\n', '\x7d']

/-- Whether a text is read as a type that brackets and operators may follow. -/
def Operand (inner : Reader) (text : List Char) (type : TypeExpr String) : Prop :=
  ∀ rest, Ahead operandEnds rest →
    readPostfix inner (text ++ rest) = some (readSuffixes type rest)

/-- Whether a text is read as a type that no operator may follow. -/
def Whole (reader : Reader) (text : List Char) (type : TypeExpr String) : Prop :=
  ∀ rest, Ahead typeEnds rest → reader (text ++ rest) = some (type, rest)

theorem readSuffixes_of_ahead {cs : List Char} (h : Ahead cs rest) (hc : '[' ∉ cs) :
    readSuffixes type rest = (type, rest) := by
  unfold readSuffixes
  split
  · exact absurd (h '[' rfl) hc
  · rfl

theorem operand_of_readPrimary (h : ∀ rest, Ahead operandEnds rest →
    readPrimary inner (text ++ rest) = some (type, rest)) : Operand inner text type := by
  intro rest hr
  rw [readPostfix, h rest hr]
  rfl

/-! ## Texts without operators -/

/-- A word is an operand. -/
theorem operand_word (hne : text ≠ []) (hw : ∀ c ∈ text, isWordChar c)
    (ht : wordType text = some type) : Operand inner text type := by
  refine operand_of_readPrimary fun rest hr => ?_
  have hend : ∀ c ∈ operandEnds, isWordChar c = false := by
    simp [operandEnds, isWordChar, isIdentifierChar]
  have hword := readWord_append hw (hr.all hend)
  obtain ⟨c, cs, rfl⟩ := List.exists_cons_of_ne_nil hne
  rw [ht] at hword
  rw [List.cons_append, readPrimary_of_isWordChar (hw c List.mem_cons_self)]
  exact hword

theorem operand_name {name : String} (h : isIdentifier name) :
    Operand inner name.toList (nameType name) := by
  obtain ⟨c, cs, hname, -⟩ := exists_of_isIdentifierChars h
  exact operand_word (by simp [hname]) (isWordChar_of_isIdentifierChars h) (wordType_name h)

theorem operand_literal {value : Literal} (h : value.Spelled) :
    Operand inner value.spelling.toList (.literals [value]) := by
  cases value with
  | number digits =>
    obtain ⟨c, cs, hdigits, -⟩ := exists_head_of_isNumberSpelling h
    exact operand_word (by simp [Literal.spelling, hdigits]) (isWordChar_of_isNumberSpelling h)
      (wordType_number h)
  | text value =>
    refine operand_of_readPrimary fun rest _ => ?_
    rw [Literal.spelling, toList_quote, List.append_assoc, List.cons_append, readPrimary]
    simp [readQuoted_quotedChars]

/-- Brackets make an array of an operand. -/
theorem Operand.array (h : Operand inner text type) :
    Operand inner (text ++ "[]".toList) (.array type) := by
  intro rest _
  have hbrackets : Ahead operandEnds ("[]".toList ++ rest) := Ahead.cons (by decide) _
  rw [List.append_assoc, h _ hbrackets]
  rfl

/-- What stands in parentheses is an operand. -/
theorem Whole.parenthesized (h : Whole inner text type) :
    Operand inner (parenthesized true text) type := by
  refine operand_of_readPrimary fun rest _ => ?_
  have hparen : Ahead typeEnds (')' :: rest) := Ahead.cons (by decide) _
  have hinner := h _ hparen
  simp [SwaggerClient.parenthesized, readPrimary, hinner]

/-! ## Texts with operators -/

/-- Texts with a separator between them are read one after the other. -/
theorem readSeparated_joinWith {α : Type} {sep : Char} {item : Reader} {ends : List Char}
    {texts : α → List Char} {types : α → TypeExpr String} (hsep : sep ∉ ends)
    (hrest : Ahead ends rest) {xs : List α} (hne : xs ≠ [])
    (hitem : ∀ x ∈ xs, ∀ rest, Ahead (sep :: ends) rest →
      item (texts x ++ rest) = some (types x, rest)) {steps : Nat} (hsteps : xs.length ≤ steps) :
    readSeparated sep item steps (Text.joinWith [sep] (xs.map texts) ++ rest) =
      some (xs.map types, rest) := by
  induction xs generalizing steps with
  | nil => exact absurd rfl hne
  | cons x xs ih =>
    obtain ⟨steps, rfl⟩ : ∃ n, steps = n + 1 := Nat.exists_eq_add_one.2 (by grind)
    have hx := hitem x List.mem_cons_self
    cases xs with
    | nil =>
      have hfirst := hx rest (hrest.mono (List.subset_cons_self _ _))
      simp [Text.joinWith, readSeparated, hfirst, expect_of_ahead hrest hsep]
    | cons y ys =>
      have hfirst := hx (sep :: (Text.joinWith [sep] ((y :: ys).map texts) ++ rest))
        (Ahead.cons List.mem_cons_self _)
      have hle : (y :: ys).length ≤ steps := by simpa using hsteps
      have htail := ih (List.cons_ne_nil y ys) (fun z hz => hitem z (List.mem_cons_of_mem x hz)) hle
      have htext : Text.joinWith [sep] ((x :: y :: ys).map texts) ++ rest =
          texts x ++ sep :: (Text.joinWith [sep] ((y :: ys).map texts) ++ rest) := by
        simp [Text.joinWith]
      rw [htext, readSeparated, hfirst]
      simp only [Option.bind_eq_bind, Option.bind_some, expect_self, htail]
      rfl

section Operators

variable {α : Type} {xs : List α}

theorem length_le_of_joinWith_map (sep : Char) (texts : α → List Char) (xs : List α)
    (rest : List Char) : xs.length ≤ (Text.joinWith [sep] (xs.map texts) ++ rest).length + 1 := by
  have hle := length_le_length_joinWith sep (xs.map texts)
  rw [List.length_map] at hle
  rw [List.length_append]
  omega

theorem readIntersection_joinWith (texts : α → List Char) (types : α → TypeExpr String)
    (hne : xs ≠ []) (hitem : ∀ x ∈ xs, Operand inner (texts x) (types x))
    (hrest : Ahead ('|' :: typeEnds) rest) :
    readIntersection inner (Text.joinWith ['&'] (xs.map texts) ++ rest) =
      some (.intersectionOf (xs.map types), rest) := by
  have hread : ∀ x ∈ xs, ∀ rest, Ahead ('&' :: '|' :: typeEnds) rest →
      readPostfix inner (texts x ++ rest) = some (types x, rest) := by
    intro x hx rest hr
    rw [hitem x hx rest (hr.mono (by decide)), readSuffixes_of_ahead hr (by decide)]
  rw [readIntersection, readSeparated_joinWith (by decide) hrest hne hread
    (length_le_of_joinWith_map _ _ _ _)]
  rfl

theorem readUnion_joinWith (texts : α → List Char) (types : α → TypeExpr String) (hne : xs ≠ [])
    (hitem : ∀ x ∈ xs, ∀ rest, Ahead ('|' :: typeEnds) rest →
      readIntersection inner (texts x ++ rest) = some (types x, rest)) :
    Whole (readUnion inner) (Text.joinWith ['|'] (xs.map texts)) (.unionOf (xs.map types)) := by
  intro rest hrest
  rw [readUnion, readSeparated_joinWith (by decide) hrest hne hitem
    (length_le_of_joinWith_map _ _ _ _)]
  rfl

/-- What is read as an intersection is a type. -/
theorem whole_of_readIntersection (h : ∀ rest, Ahead ('|' :: typeEnds) rest →
    readIntersection inner (text ++ rest) = some (type, rest)) :
    Whole (readUnion inner) text type := by
  have hone := readUnion_joinWith (fun (_ : Unit) => text) (fun _ => type)
    (List.cons_ne_nil () []) fun _ _ => h
  simpa [Text.joinWith, TypeExpr.unionOf] using hone

theorem Operand.readIntersection (h : Operand inner text type)
    (hrest : Ahead ('|' :: typeEnds) rest) :
    readIntersection inner (text ++ rest) = some (type, rest) := by
  have hone := readIntersection_joinWith (fun (_ : Unit) => text) (fun _ => type)
    (List.cons_ne_nil () []) (fun _ _ => h) hrest
  simpa [Text.joinWith, TypeExpr.intersectionOf] using hone

/-- An operand by itself is a type. -/
theorem Operand.whole (h : Operand inner text type) : Whole (readUnion inner) text type :=
  whole_of_readIntersection fun _ => h.readIntersection

/-- Operands with `&` between them are an intersection. -/
theorem whole_intersection (texts : α → List Char) (types : α → TypeExpr String) (hne : xs ≠ [])
    (hitem : ∀ x ∈ xs, Operand inner (texts x) (types x)) :
    Whole (readUnion inner) (Text.joinWith ['&'] (xs.map texts)) (.intersectionOf (xs.map types)) :=
  whole_of_readIntersection fun _ => readIntersection_joinWith texts types hne hitem

/-- Operands with `|` between them are a union. -/
theorem whole_union (texts : α → List Char) (types : α → TypeExpr String) (hne : xs ≠ [])
    (hitem : ∀ x ∈ xs, Operand inner (texts x) (types x)) :
    Whole (readUnion inner) (Text.joinWith ['|'] (xs.map texts)) (.unionOf (xs.map types)) :=
  readUnion_joinWith texts types hne fun x hx _ => (hitem x hx).readIntersection

end Operators

/-! ## Object types -/

theorem readEnd_line {c : Char} (hc : c ≠ '\x7d') : readEnd ('\n' :: c :: rest) = none := by
  simp [readEnd, skipLine, expect, hc]

theorem afterIndexKey_indexKey (rest : List Char) :
    afterIndexKey (indexKey ++ rest) = some rest := by
  simp [afterIndexKey]

theorem afterIndexKey_of_ne {c : Char} (hc : c ≠ '[') : afterIndexKey (c :: rest) = none := by
  have hkey : indexKey = '[' :: "key:string]:".toList := rfl
  rw [afterIndexKey, hkey]
  simp [Ne.symm hc]

theorem readBody_end (inner : Reader) (steps : Nat) (rest : List Char) :
    readBody inner (steps + 1) ('\n' :: '\x7d' :: rest) = some (([], none), rest) := by
  have hend : readEnd ('\n' :: '\x7d' :: rest) = some rest := by simp [readEnd, skipLine]
  simp only [readBody, hend]

/-- The type of the values under any other key, behind the opening brace or on a line of
its own. -/
theorem readBody_index (hv : Whole inner text type) (steps : Nat) (rest : List Char)
    {line close : List Char} (hline : line = [] ∨ line = ['\n']) (hclose : close = ['\x7d'] ∨ close = ['\n', '\x7d']) :
    readBody inner (steps + 1) (line ++ indexKey ++ (text ++ (close ++ rest))) =
      some (([], some type), rest) := by
  have hend : readEnd (line ++ indexKey ++ (text ++ (close ++ rest))) = none := by
    rcases hline with rfl | rfl <;> rfl
  have hskip : skipLine (line ++ indexKey ++ (text ++ (close ++ rest))) =
      indexKey ++ (text ++ (close ++ rest)) := by
    rcases hline with rfl | rfl <;> rfl
  have hread : inner (text ++ (close ++ rest)) = some (type, close ++ rest) := by
    refine hv _ ?_
    rcases hclose with rfl | rfl
    · exact Ahead.cons (by decide) _
    · exact Ahead.cons (by decide) _
  have hread_end : readEnd (close ++ rest) = some rest := by
    rcases hclose with rfl | rfl <;> rfl
  rw [readBody, hend, hskip, afterIndexKey_indexKey]
  simp only [hread, hread_end, Option.bind_eq_bind, Option.bind_some]
  rfl

/-- A key with its documentation does not look like the end of an object type, and not
like the key that stands for any other key. -/
theorem exists_of_keyHead (doc : Option String) (name : String) (optional : Bool) :
    ∃ c rest, keyHead doc (memberKey name optional) = c :: rest ∧ c ≠ '\x7d' ∧ c ≠ '[' := by
  cases doc with
  | some doc => exact ⟨'/', _, rfl, by decide, by decide⟩
  | none =>
    obtain ⟨c, rest, hname, hc⟩ := exists_of_propertyKey name
    have hkey : ∃ rest, (memberKey name optional).toList = c :: rest := by
      cases optional <;> simp [memberKey, hname]
    obtain ⟨rest, hkey⟩ := hkey
    refine ⟨c, rest ++ [':'], by rw [← List.cons_append, ← hkey]; rfl, ?_, ?_⟩
    all_goals
      rintro rfl
      exact absurd hc (by decide)

section Members

variable {members : List (Member (TypeExpr String))} {index : Option (TypeExpr String)}

/-- Members are read back one after the other, in front of what is read without any. -/
theorem readBody_memberLines {tail : List Char}
    (hm : ∀ m ∈ members, Whole inner (m.type.chars .member) m.type.norm)
    (htail : ∀ steps, readBody inner (steps + 1) tail = some (([], index), rest))
    (hline : Ahead ['\n'] tail) {steps : Nat} (hsteps : members.length < steps) :
    readBody inner steps (members.flatMap memberLine ++ tail) =
      some ((members.map TypeExpr.normMember, index), rest) := by
  induction members generalizing steps with
  | nil =>
    obtain ⟨steps, rfl⟩ : ∃ n, steps = n + 1 := Nat.exists_eq_add_one.2 hsteps
    exact htail steps
  | cons m members ih =>
    obtain ⟨steps, rfl⟩ : ∃ n, steps = n + 1 := Nat.exists_eq_add_one.2 (Nat.zero_lt_of_lt hsteps)
    have hrest := ih (fun n hn => hm n (List.mem_cons_of_mem m hn))
      (Nat.lt_of_succ_lt_succ (by simpa using hsteps))
    have hahead : Ahead typeEnds (members.flatMap memberLine ++ tail) := by
      cases members with
      | nil => exact hline.mono (by decide)
      | cons n members => exact Ahead.cons (by decide) _
    have hmember := readMember_keyHead m.doc m.name m.optional (hm m List.mem_cons_self _ hahead)
    obtain ⟨c, cs, hhead, hbrace, hbracket⟩ := exists_of_keyHead m.doc m.name m.optional
    have htext : (m :: members).flatMap memberLine ++ tail =
        '\n' :: (keyHead m.doc (memberKey m.name m.optional) ++
          (m.type.chars .member ++ (members.flatMap memberLine ++ tail))) := by
      simp [memberLine]
    rw [htext]
    rw [hhead, List.cons_append] at hmember ⊢
    rw [readBody, readEnd_line hbrace, skipLine, afterIndexKey_of_ne hbracket]
    simp only [expect_self, hmember, hrest, Option.bind_eq_bind, Option.bind_some]
    rfl

end Members

/-- What is read behind an opening brace is an operand. -/
theorem operand_block {body : List Char} {members : List (Member (TypeExpr String))}
    {index : Option (TypeExpr String)}
    (h : ∀ rest, readBody inner ((body ++ rest).length + 1) (body ++ rest) =
      some ((members, index), rest)) : Operand inner ('\x7b' :: body) (.object members index) := by
  refine operand_of_readPrimary fun rest _ => ?_
  rw [List.cons_append, readPrimary, h]
  rfl

end SwaggerClient.TypeText
