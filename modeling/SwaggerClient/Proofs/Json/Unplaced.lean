import SwaggerClient.Document.Decode

/-!
# Places in a text and data

A value that stands elsewhere in a text is the same tree with other places.  Places only tell where
a fault is: what a decoder gives, and whether it gives anything, does not depend on them.
-/

namespace SwaggerClient

/-- A fault without its place. -/
def Fault.unplaced (fault : Fault) : Fault :=
  ⟨fault.reason, none⟩

mutual

/-- A tree without its places. -/
def Tree.unplaced : Tree → Tree
  | .leaf _ _ taken skipped =>
    .leaf 0 0 (taken.mapError Fault.unplaced) (skipped.map Fault.unplaced)
  | .array _ items => .array 0 items.unplaced
  | .object _ members => .object 0 members.unplaced

/-- Items without their places. -/
def Items.unplaced : Items → Items
  | .closed _ => .closed 0
  | .broken taken skipped => .broken taken.unplaced skipped.unplaced
  | .item value _ rest => .item value.unplaced 0 rest.unplaced

/-- Members without their places. -/
def Members.unplaced : Members → Members
  | .closed _ => .closed 0
  | .broken taken skipped => .broken taken.unplaced skipped.unplaced
  | .member key _ _ value _ rest =>
    .member (key.mapError Fault.unplaced) 0 0 value.unplaced 0 rest.unplaced

end

mutual

@[simp] theorem Tree.height_unplaced (t : Tree) : t.unplaced.height = t.height := by
  cases t with
  | leaf start stop taken skipped => rfl
  | array start items => simp [Tree.unplaced, Tree.height, items.height_unplaced]
  | object start members => simp [Tree.unplaced, Tree.height, members.height_unplaced]

@[simp] theorem Items.height_unplaced (items : Items) : items.unplaced.height = items.height := by
  cases items with
  | closed stop => rfl
  | broken taken skipped => rfl
  | item value settled rest =>
    simp [Items.unplaced, Items.height, value.height_unplaced, rest.height_unplaced]

@[simp] theorem Members.height_unplaced (members : Members) :
    members.unplaced.height = members.height := by
  cases members with
  | closed stop => rfl
  | broken taken skipped => rfl
  | member key keyStop keySettled value settled rest =>
    simp [Members.unplaced, Members.height, value.height_unplaced, rest.height_unplaced]

end

/-! ## Data of a result -/

section Results

variable {ε α β : Type}

@[simp] theorem toOption_bind (x : Except ε α) (f : α → Except ε β) :
    (x >>= f).toOption = x.toOption.bind fun a => (f a).toOption := by
  cases x <;> rfl

@[simp] theorem toOption_ok (a : α) : (.ok a : Except ε α).toOption = some a := rfl

@[simp] theorem toOption_error (e : ε) : (.error e : Except ε α).toOption = none := rfl

@[simp] theorem toOption_map (f : α → β) (x : Except ε α) :
    (x.map f).toOption = x.toOption.map f := by
  cases x <;> rfl

@[simp] theorem toOption_functorMap (f : α → β) (x : Except ε α) :
    (f <$> x).toOption = x.toOption.map f :=
  toOption_map f x

@[simp] theorem toOption_mapError {ε' : Type} (f : ε → ε') (x : Except ε α) :
    (x.mapError f).toOption = x.toOption := by
  cases x <;> rfl

@[simp] theorem toOption_settling (offset : Nat) (x : Except Fault α) :
    (settling offset x).toOption = x.toOption :=
  toOption_mapError _ x

theorem toOption_eq_some_iff {x : Except ε α} {a : α} : x.toOption = some a ↔ x = .ok a := by
  cases x <;> simp

theorem bind_eq_ok_iff {x : Except ε α} {f : α → Except ε β} {b : β} :
    x >>= f = .ok b ↔ ∃ a, x = .ok a ∧ f a = .ok b := by
  rw [← toOption_eq_some_iff, toOption_bind, Option.bind_eq_some_iff]
  simp only [toOption_eq_some_iff]

theorem map_eq_ok_iff {x : Except ε α} {f : α → β} {b : β} :
    x.map f = .ok b ↔ ∃ a, x = .ok a ∧ f a = b := by
  rw [← toOption_eq_some_iff, toOption_map, Option.map_eq_some_iff]
  simp only [toOption_eq_some_iff]

theorem settling_eq_ok_iff {offset : Nat} {x : Except Fault α} {a : α} :
    settling offset x = .ok a ↔ x = .ok a := by
  rw [← toOption_eq_some_iff, toOption_settling, toOption_eq_some_iff]

/-- Results of the same data are both that, or both faults. -/
theorem ok_or_error_of_toOption_eq {x x' : Except ε α} (h : x'.toOption = x.toOption) :
    (∃ a, x = .ok a ∧ x' = .ok a) ∨ ∃ e e', x = .error e ∧ x' = .error e' := by
  cases x with
  | ok a => exact .inl ⟨a, rfl, toOption_eq_some_iff.1 h⟩
  | error e =>
    cases x' with
    | ok a => cases h
    | error e' => exact .inr ⟨e, e', rfl, rfl⟩

theorem toOption_enter (source : Source) (start : Nat) :
    (source.enter start).toOption = (source.enter 0).toOption := by
  cases source with
  | value => rfl
  | text opened =>
    by_cases h : opened < maxOpen <;> simp [Source.enter, h]

end Results

/-! ## Skipping and taking whole -/

mutual

theorem Tree.toOption_skip_unplaced (t : Tree) : t.unplaced.skip.toOption = t.skip.toOption := by
  cases t with
  | leaf start stop taken skipped => cases skipped <;> rfl
  | array start items => exact items.toOption_skip_unplaced
  | object start members => exact members.toOption_skip_unplaced

theorem Items.toOption_skip_unplaced (items : Items) :
    items.unplaced.skip.toOption = items.skip.toOption := by
  cases items with
  | closed stop => rfl
  | broken taken skipped => rfl
  | item value settled rest =>
    simp [Items.unplaced, Items.skip, value.toOption_skip_unplaced, rest.toOption_skip_unplaced]

theorem Members.toOption_skip_unplaced (members : Members) :
    members.unplaced.skip.toOption = members.skip.toOption := by
  cases members with
  | closed stop => rfl
  | broken taken skipped => rfl
  | member key keyStop keySettled value settled rest =>
    simp [Members.unplaced, Members.skip, value.toOption_skip_unplaced,
      rest.toOption_skip_unplaced]

end

mutual

theorem Tree.toOption_toJson_unplaced (source : Source) (t : Tree) :
    (t.unplaced.toJson source).toOption = (t.toJson source).toOption := by
  cases t with
  | leaf start stop taken skipped => simp [Tree.unplaced, Tree.toJson]
  | array start items =>
    simp only [Tree.unplaced, Tree.toJson, toOption_bind, toOption_enter source start,
      items.toOption_toJson_unplaced]
  | object start members =>
    simp only [Tree.unplaced, Tree.toJson, toOption_bind, toOption_enter source start,
      members.toOption_toJson_unplaced]

theorem Items.toOption_toJson_unplaced (source : Source) (items : Items) :
    (items.unplaced.toJson source).toOption = (items.toJson source).toOption := by
  cases items with
  | closed stop => rfl
  | broken taken skipped => rfl
  | item value settled rest =>
    simp [Items.unplaced, Items.toJson, value.toOption_toJson_unplaced,
      rest.toOption_toJson_unplaced]

theorem Members.toOption_toJson_unplaced (source : Source) (members : Members) :
    (members.unplaced.toJson source).toOption = (members.toJson source).toOption := by
  cases members with
  | closed stop => rfl
  | broken taken skipped => rfl
  | member key keyStop keySettled value settled rest =>
    simp [Members.unplaced, Members.toJson, value.toOption_toJson_unplaced,
      rest.toOption_toJson_unplaced]

end

/-! ## Decoders -/

/-- Whether a decoder gives the same data for a tree wherever it stands. -/
def Placeless {α : Type} (decode : Tree → Except Fault α) : Prop :=
  ∀ t, (decode t.unplaced).toOption = (decode t).toOption

namespace Placeless

variable {α β : Type}

theorem string : Placeless decodeString := by
  intro t
  rcases t with ⟨_, _, _ | (_ | _ | _ | _), _⟩ | _ | _ <;> rfl

theorem bool : Placeless decodeBool := by
  intro t
  rcases t with ⟨_, _, _ | (_ | _ | _ | _), _⟩ | _ | _ <;> rfl

theorem toJson (source : Source) : Placeless (Tree.toJson source) :=
  Tree.toOption_toJson_unplaced source

theorem option {decode : Tree → Except Fault α} (h : Placeless decode) :
    Placeless (decodeOption decode) := by
  intro t
  have hmap : ((decode t.unplaced).map some).toOption = ((decode t).map some).toOption := by
    rw [toOption_map, toOption_map, h t]
  rcases t with ⟨_, _, _ | (_ | _ | _ | _), _⟩ | _ | _
  case leaf.ok.null => rfl
  all_goals exact hmap

theorem bind {decode : Tree → Except Fault α} (h : Placeless decode) (f : α → Except Fault β) :
    Placeless fun t => decode t >>= f := by
  intro t
  rw [toOption_bind, toOption_bind, h t]

theorem map {decode : Tree → Except Fault α} (h : Placeless decode) (f : α → β) :
    Placeless fun t => (decode t).map f := by
  intro t
  rw [toOption_map, toOption_map, h t]

theorem items {decode : Tree → Except Fault α} (h : Placeless decode) :
    ∀ items : Items, (items.unplaced.decodeAll decode).toOption = (items.decodeAll decode).toOption
  | .closed _ => rfl
  | .broken .. => rfl
  | .item value _ rest => by
    simp [Items.unplaced, Items.decodeAll, h value, h.items rest]

theorem members {decode : Tree → Except Fault α} (h : Placeless decode) :
    ∀ members : Members,
      (members.unplaced.decodeAll decode).toOption = (members.decodeAll decode).toOption
  | .closed _ => rfl
  | .broken .. => rfl
  | .member _ _ _ value _ rest => by
    simp [Members.unplaced, Members.decodeAll, h value, h.members rest]

theorem list {decode : Source → Tree → Except Fault α} (h : ∀ source, Placeless (decode source))
    (source : Source) : Placeless (decodeList decode source) := by
  intro t
  cases t with
  | leaf start stop taken skipped => rfl
  | array start items =>
    simp only [Tree.unplaced, decodeList, toOption_bind, toOption_enter source start,
      (h _).items items]
  | object start members => rfl

theorem dictionary {decode : Source → Tree → Except Fault α}
    (h : ∀ source, Placeless (decode source)) (source : Source) :
    Placeless (decodeDictionary decode source) := by
  intro t
  cases t with
  | leaf start stop taken skipped => rfl
  | array start items => rfl
  | object start members =>
    simp only [Tree.unplaced, decodeDictionary, toOption_bind, toOption_enter source start,
      (h _).members members]

theorem forms (name : String) {forms : Tree → Option α} (h : ∀ t, forms t.unplaced = forms t)
    (source : Source) : Placeless (decodeForms name forms source) := by
  intro t
  cases source with
  | text opened =>
    have htaken : (discard (t.unplaced.toJson (.text opened))).toOption =
        (discard (t.toJson (.text opened))).toOption :=
      (toOption_functorMap _ _).trans
        ((congrArg _ (t.toOption_toJson_unplaced _)).trans (toOption_functorMap _ _).symm)
    simp only [decodeForms, toOption_bind, htaken, h t]
  | value => simp only [decodeForms, h t]

end Placeless

/-! ## Records -/

namespace Record

variable {δ : Type} (r : Record δ) (source : Source)

/-- Whether the fields of a record are decoded without regard to places. -/
def SetsPlaceless : Prop :=
  ∀ source name draft, Placeless fun t => r.set source name t draft

variable {r}

theorem SetsPlaceless.ofMembers (h : r.SetsPlaceless) :
    ∀ (seen : List String) (members : Members) (draft : δ),
      (r.ofMembers source seen members.unplaced draft).toOption =
        (r.ofMembers source seen members draft).toOption
  | seen, .closed _, draft => by
    simp only [Members.unplaced, Record.ofMembers]
    split <;> rfl
  | _, .broken .., _ => by simp only [Members.unplaced, Record.ofMembers, toOption_error]
  | seen, .member key _ _ value _ rest, draft => by
    simp only [Members.unplaced, Record.ofMembers, toOption_bind, toOption_mapError,
      apply_ite Except.toOption, toOption_settling, toOption_error, h source _ draft value,
      h.ofMembers _ rest, value.toOption_skip_unplaced]

theorem toOption_surplus_unplaced (settled settled' : Nat) (items : Items) :
    (r.surplus source settled' items.unplaced).toOption =
      (r.surplus source settled items).toOption := by
  cases items with
  | closed stop => cases source <;> rfl
  | broken taken skipped =>
    rcases taken with ⟨reason, offset⟩
    cases source <;> cases reason <;> rfl
  | item value settled rest => cases source <;> rfl

theorem SetsPlaceless.ofItems (h : r.SetsPlaceless) :
    ∀ (left : List String) (settled settled' : Nat) (items : Items) (draft : δ),
      (r.ofItems source left settled' items.unplaced draft).toOption =
        (r.ofItems source left settled items draft).toOption
  | [], settled, settled', items, draft => by
    simp only [Record.ofItems, toOption_bind, toOption_surplus_unplaced source settled settled']
  | name :: left, _, _, .closed _, draft => by
    simp only [Items.unplaced, Record.ofItems]
    split <;> rfl
  | _ :: _, _, _, .broken .., _ => by simp only [Items.unplaced, Record.ofItems, toOption_error]
  | name :: left, _, _, .item value settled rest, draft => by
    simp only [Items.unplaced, Record.ofItems, toOption_bind, toOption_settling,
      h source name draft value, h.ofItems left settled 0 rest]

theorem SetsPlaceless.decode (h : r.SetsPlaceless) (draft : δ) :
    Placeless (r.decode source draft) := by
  intro t
  cases t with
  | leaf start stop taken skipped => rfl
  | array start items =>
    simp only [Tree.unplaced, Record.decode, toOption_bind, toOption_enter source start,
      h.ofItems _ r.fields start 0 items draft]
  | object start members =>
    simp only [Tree.unplaced, Record.decode, toOption_bind, toOption_enter source start,
      h.ofMembers _ [] members draft]

end Record

/-! ## Words -/

namespace Placeless

variable {α β : Type}

theorem keyWord (parse : String → Except Reason α) (members : Members) :
    (decodeKeyWord parse members.unplaced).toOption = (decodeKeyWord parse members).toOption := by
  cases members with
  | closed stop => rfl
  | broken taken skipped => rfl
  | member key keyStop keySettled value settled rest =>
    simp only [Members.unplaced, decodeKeyWord, toOption_bind, toOption_mapError]
    refine congrArg _ (funext fun word => congrArg _ (funext fun a => ?_))
    rcases value with ⟨_, _, _ | (_ | _ | _ | _), _⟩ | _ | _
    case leaf.ok.null =>
      rcases rest with _ | ⟨⟨reason, offset⟩, skipped⟩ | _
      case broken => cases reason <;> rfl
      all_goals rfl
    all_goals rfl

theorem word (parse : String → Except Reason α) (source : Source) :
    Placeless (decodeWord parse source) := by
  intro t
  cases t with
  | leaf start stop taken skipped =>
    rcases taken with _ | (_ | _ | _ | word)
    case ok.string =>
      cases source <;> exact (toOption_mapError _ (parse word)).trans (toOption_mapError _ _).symm
    all_goals cases source <;> rfl
  | array start items => cases source <;> rfl
  | object start members =>
    cases source with
    | text opened =>
      simp only [Tree.unplaced, decodeWord, toOption_bind, toOption_enter _ start, keyWord]
    | value =>
      rcases members with _ | _ | ⟨_ | word, _, _, value, _, _ | _ | _⟩
      -- Of the objects that have been read before only those with a single key are words.
      case member.ok.closed =>
        have hkey : (Except.ok word).mapError Fault.unplaced = .ok word := rfl
        simp only [Tree.unplaced, Members.unplaced, hkey, decodeWord, toOption_bind,
          toOption_mapError]
        refine congrArg _ (funext fun a => ?_)
        rcases value with ⟨_, _, _ | (_ | _ | _ | _), _⟩ | _ | _ <;> rfl
      all_goals rfl

theorem token : Placeless decodeToken :=
  word _ .value

theorem typeField (source : Source) : Placeless (decodeTypeField source) := by
  refine forms _ (fun t => ?_) source
  rcases ok_or_error_of_toOption_eq (token t) with ⟨word, h, h'⟩ | ⟨fault, fault', h, h'⟩
  · rw [h, h']
  · rw [h, h', list (fun _ => token) .value t]

theorem requiredNames (source : Source) : Placeless (decodeRequired source) := by
  refine forms _ (fun t => ?_) source
  rcases ok_or_error_of_toOption_eq (list (fun _ => string) .value t) with
    ⟨names, h, h'⟩ | ⟨fault, fault', h, h'⟩
  · rw [h, h']
  · rw [h, h', bool t]

theorem additional {node : Source → Tree → Except Fault SchemaNode}
    (h : ∀ source, Placeless (node source)) (source : Source) :
    Placeless (decodeAdditional node source) := by
  refine forms _ (fun t => ?_) source
  rcases ok_or_error_of_toOption_eq (bool t) with ⟨value, ht, ht'⟩ | ⟨fault, fault', ht, ht'⟩
  · rw [ht, ht']
  · rw [ht, ht', h .value t]

end Placeless

/-! ## Schemas and parameters -/

theorem setsPlaceless_schemaRecord {node : Source → Tree → Except Fault SchemaNode}
    (h : ∀ source, Placeless (node source)) : (schemaRecord node).SetsPlaceless := by
  intro source name draft
  unfold schemaRecord
  dsimp only
  -- The fields in the order of the record, and at last a name that is none of them.
  split
  · exact (Placeless.option (.typeField source)).bind _
  · exact (Placeless.option .string).bind _
  · exact (Placeless.list h source).bind _
  · exact (Placeless.list h source).bind _
  · exact (Placeless.list (fun source => .toJson source) source).bind _
  · exact (Placeless.option (.dictionary h source)).bind _
  · exact (Placeless.option (h source)).bind _
  · exact (Placeless.requiredNames source).bind _
  · exact (Placeless.option (.additional h source)).bind _
  · exact (Placeless.option .string).bind _
  · exact fun t => rfl

theorem Placeless.schemaWithin (levels : Nat) (source : Source) :
    Placeless (SchemaNode.decodeWithin levels source) := by
  induction levels generalizing source with
  | zero => exact fun t => rfl
  | succ levels ih => exact (setsPlaceless_schemaRecord ih).decode source {}

theorem Placeless.schema (source : Source) : Placeless (SchemaNode.decode source) := by
  intro t
  rw [SchemaNode.decode, SchemaNode.decode, t.height_unplaced]
  exact schemaWithin _ source t

theorem setsPlaceless_parameterRecord : parameterRecord.SetsPlaceless := by
  intro source name draft
  unfold parameterRecord
  dsimp only
  split
  · exact Placeless.string.bind _
  · exact (Placeless.word parseLocation source).map some |>.bind _
  · exact (Placeless.option .string).bind _
  · exact Placeless.bool.bind _
  · exact (Placeless.option (.schema source)).bind _
  · exact fun t => rfl

theorem Placeless.parameter (source : Source) : Placeless (Parameter.decode source) :=
  (setsPlaceless_parameterRecord.decode source {}).bind _

end SwaggerClient
