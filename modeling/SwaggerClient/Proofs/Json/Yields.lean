import SwaggerClient.Proofs.Dictionary
import SwaggerClient.Proofs.Json.Unplaced

/-!
# What decoders give

A property that everything has that a decoder gives.  A decoder that is made of others gives what
they give: lists, dictionaries with distinct keys, and records whose fields keep a property.  What a
record has for a single field is decoded from the member, or from the item, that gives the field.
-/

namespace SwaggerClient

/-- Whether everything that a decoder gives has a property. -/
def Yields {α : Type} (p : α → Prop) (decode : Tree → Except Fault α) : Prop :=
  ∀ t a, decode t = .ok a → p a

namespace Yields

variable {α β : Type} {p : α → Prop}

theorem any (decode : Tree → Except Fault α) : Yields (fun _ => True) decode :=
  fun _ _ _ => trivial

theorem map {q : β → Prop} {decode : Tree → Except Fault α} {f : α → β} (h : Yields p decode)
    (hf : ∀ a, p a → q (f a)) : Yields q fun t => do return f (← decode t) := by
  intro t b hb
  obtain ⟨a, ha, hfa⟩ := bind_eq_ok_iff.1 hb
  obtain rfl : f a = b := Except.ok.inj hfa
  exact hf a (h t a ha)

theorem option {decode : Tree → Except Fault α} (h : Yields p decode) :
    Yields (fun o => ∀ a ∈ o, p a) (decodeOption decode) := by
  intro t o ho
  unfold decodeOption at ho
  split at ho
  · obtain rfl : none = o := Except.ok.inj ho
    simp
  · obtain ⟨a, ha, rfl⟩ := map_eq_ok_iff.1 ho
    simpa using h t a ha

theorem items {decode : Tree → Except Fault α} (h : Yields p decode) :
    ∀ (items : Items) (as : List α), items.decodeAll decode = .ok as → ∀ a ∈ as, p a
  | .closed _, as, has => by
    obtain rfl : [] = as := Except.ok.inj has
    simp
  | .broken .., _, has => by cases has
  | .item value _ rest, as, has => by
    obtain ⟨a, ha, has⟩ := bind_eq_ok_iff.1 has
    obtain ⟨later, hlater, has⟩ := bind_eq_ok_iff.1 has
    obtain rfl : a :: later = as := Except.ok.inj has
    exact List.forall_mem_cons.2 ⟨h value a (settling_eq_ok_iff.1 ha), h.items rest later hlater⟩

theorem members {decode : Tree → Except Fault α} (h : Yields p decode) :
    ∀ (members : Members) (entries : List (String × α)),
      members.decodeAll decode = .ok entries → ∀ entry ∈ entries, p entry.2
  | .closed _, entries, hentries => by
    obtain rfl : [] = entries := Except.ok.inj hentries
    simp
  | .broken .., _, hentries => by cases hentries
  | .member key _ _ value _ rest, entries, hentries => by
    obtain ⟨name, -, hentries⟩ := bind_eq_ok_iff.1 hentries
    obtain ⟨a, ha, hentries⟩ := bind_eq_ok_iff.1 hentries
    obtain ⟨later, hlater, hentries⟩ := bind_eq_ok_iff.1 hentries
    obtain rfl : (name, a) :: later = entries := Except.ok.inj hentries
    exact List.forall_mem_cons.2 ⟨h value a (settling_eq_ok_iff.1 ha), h.members rest later hlater⟩

theorem list {decode : Source → Tree → Except Fault α} (h : ∀ source, Yields p (decode source))
    (source : Source) : Yields (fun as => ∀ a ∈ as, p a) (decodeList decode source) := by
  intro t as has
  cases t with
  | array start items =>
    obtain ⟨inner, -, has⟩ := bind_eq_ok_iff.1 has
    exact (h inner).items items as has
  | leaf | object => cases has

/-- A dictionary has distinct keys, whatever keys stand in the text. -/
theorem dictionary {decode : Source → Tree → Except Fault α}
    (h : ∀ source, Yields p (decode source)) (source : Source) :
    Yields (fun d => (d.map Prod.fst).Nodup ∧ ∀ entry ∈ d, p entry.2)
      (decodeDictionary decode source) := by
  intro t d hd
  cases t with
  | object start members =>
    obtain ⟨inner, -, hd⟩ := bind_eq_ok_iff.1 hd
    obtain ⟨entries, hentries, hd⟩ := bind_eq_ok_iff.1 hd
    obtain rfl : Dictionary.ofList entries = d := Except.ok.inj hd
    refine ⟨?_, fun entry he => ?_⟩
    · have hkeys := Dictionary.keys_ofList entries
      rw [Dictionary.keys] at hkeys
      rw [hkeys]
      exact nodup_eraseDups _
    · obtain ⟨before, after, heq, -⟩ := Dictionary.exists_last_of_mem_ofList he
      exact (h inner).members members entries hentries entry (by simp [heq])
  | leaf | array => cases hd

theorem forms (name : String) {forms : Tree → Option α} (h : ∀ t a, forms t = some a → p a)
    (source : Source) : Yields p (decodeForms name forms source) := by
  intro t a ha
  unfold decodeForms at ha
  cases hform : forms t with
  | none =>
    simp only [hform] at ha
    cases source with
    | text =>
      obtain ⟨_, _, hnone⟩ := bind_eq_ok_iff.1 ha
      cases hnone
    | value => cases ha
  | some b =>
    simp only [hform] at ha
    have heq : b = a := by
      cases source with
      | text =>
        obtain ⟨_, _, hsome⟩ := bind_eq_ok_iff.1 ha
        exact Except.ok.inj hsome
      | value => exact Except.ok.inj ha
    exact heq ▸ h t b hform

end Yields

/-! ## Records -/

namespace Record

variable {α δ : Type} {p : δ → Prop} {r : Record δ}

/-- Whether a draft keeps a property when a field is put into it. -/
def Keeps (p : δ → Prop) (r : Record δ) : Prop :=
  ∀ source name draft, p draft → Yields p fun t => r.set source name t draft

theorem Keeps.ofMembers (h : r.Keeps p) (source : Source) :
    ∀ (seen : List String) (members : Members) (draft d : δ), p draft →
      r.ofMembers source seen members draft = .ok d → p d
  | seen, .closed _, draft, d, hp, hd => by
    rw [Record.ofMembers] at hd
    split at hd
    · cases hd
    · obtain rfl := Except.ok.inj hd
      exact hp
  | _, .broken .., _, _, _, hd => by cases hd
  | seen, .member key _ _ value _ rest, draft, d, hp, hd => by
    obtain ⟨name, -, hd⟩ := bind_eq_ok_iff.1 hd
    split at hd
    · split at hd
      · cases hd
      · obtain ⟨next, hnext, hd⟩ := bind_eq_ok_iff.1 hd
        exact h.ofMembers source _ rest next d
          (h source name draft hp value next (settling_eq_ok_iff.1 hnext)) hd
    · obtain ⟨-, -, hd⟩ := bind_eq_ok_iff.1 hd
      exact h.ofMembers source seen rest draft d hp hd

theorem Keeps.ofItems (h : r.Keeps p) (source : Source) :
    ∀ (left : List String) (settled : Nat) (items : Items) (draft d : δ), p draft →
      r.ofItems source left settled items draft = .ok d → p d
  | [], settled, items, draft, d, hp, hd => by
    obtain ⟨-, -, hd⟩ := bind_eq_ok_iff.1 hd
    obtain rfl := Except.ok.inj hd
    exact hp
  | _ :: _, _, .closed _, draft, d, hp, hd => by
    simp only [Record.ofItems] at hd
    split at hd
    · cases hd
    · obtain rfl := Except.ok.inj hd
      exact hp
  | _ :: _, _, .broken .., _, _, _, hd => by cases hd
  | name :: left, _, .item value _ rest, draft, d, hp, hd => by
    obtain ⟨next, hnext, hd⟩ := bind_eq_ok_iff.1 hd
    exact h.ofItems source left _ rest next d
      (h source name draft hp value next (settling_eq_ok_iff.1 hnext)) hd

/-- A record has a property that the draft has at first and keeps. -/
theorem Keeps.decode (h : r.Keeps p) (source : Source) {draft : δ} (hp : p draft) :
    Yields p (r.decode source draft) := by
  intro t d hd
  cases t with
  | leaf => cases hd
  | array start items =>
    obtain ⟨inner, -, hd⟩ := bind_eq_ok_iff.1 hd
    exact h.ofItems inner r.fields start items draft d hp hd
  | object start members =>
    obtain ⟨inner, -, hd⟩ := bind_eq_ok_iff.1 hd
    exact h.ofMembers inner [] members draft d hp hd

/-! ## The value of a field -/

/-- The value that is given for a field of a record: by the member with its name, or by the item in
its place. -/
def fieldOf? (r : Record δ) (name : String) : Json → Option Json
  | .object members => Dictionary.get? members name
  | .array items => items[r.fields.idxOf name]?
  | _ => none

/-- Whether the value of a field is decoded into a component of the draft that no other field
changes. -/
structure Decodes (r : Record δ) (name : String) (component : δ → α)
    (decode : Source → Tree → Except Fault α) : Prop where
  nodup : r.fields.Nodup
  mem : name ∈ r.fields
  set : ∀ source t draft d, r.set source name t draft = .ok d → decode source t = .ok (component d)
  frame : ∀ source other t draft d, other ≠ name → r.set source other t draft = .ok d →
    component d = component draft

/-- Whether data is what a value is decoded to, or what there is without one. -/
structure Decoded (decode : Tree → Except Fault α) (without : α) (value? : Option Json)
    (a : α) : Prop where
  given : ∀ value, value? = some value → decode value.toTree = .ok a
  missing : value? = none → a = without

namespace Decoded

variable {decode : Tree → Except Fault α} {without a : α} {value : Json}

theorem none : Decoded decode without none without :=
  ⟨nofun, fun _ => rfl⟩

theorem some (h : decode value.toTree = .ok a) : Decoded decode without (some value) a :=
  ⟨fun _ hgiven => Option.some.inj hgiven ▸ h, nofun⟩

end Decoded

namespace Decodes

variable {name : String} {component : δ → α} {decode : Source → Tree → Except Fault α}
  {source : Source} {d : δ}

/-- Behind the field no other member changes its component. -/
theorem ofMembers_of_mem (h : r.Decodes name component decode) :
    ∀ {members : List (String × Json)} {seen : List String} {draft : δ}, name ∈ seen →
      r.ofMembers source seen (Json.toMembers members) draft = .ok d →
        component d = component draft
  | [], seen, draft, _, hd => by
    rw [Json.toMembers, ofMembers] at hd
    split at hd
    · cases hd
    · rw [Except.ok.inj hd]
  | (key, value) :: members, seen, draft, hseen, hd => by
    obtain ⟨_, hkey, hd⟩ := bind_eq_ok_iff.1 hd
    obtain rfl := Except.ok.inj hkey
    split at hd
    · split at hd
      · cases hd
      next hnew =>
        obtain ⟨next, hnext, hd⟩ := bind_eq_ok_iff.1 hd
        have hother : key ≠ name := by
          rintro rfl
          simp [hseen] at hnew
        rw [h.ofMembers_of_mem (List.mem_cons_of_mem key hseen) hd]
        exact h.frame source key _ draft next hother (settling_eq_ok_iff.1 hnext)
    · obtain ⟨-, -, hd⟩ := bind_eq_ok_iff.1 hd
      exact h.ofMembers_of_mem hseen hd

theorem ofMembers (h : r.Decodes name component decode) :
    ∀ {members : List (String × Json)} {seen : List String} {draft : δ}, name ∉ seen →
      r.ofMembers source seen (Json.toMembers members) draft = .ok d →
        Decoded (decode source) (component draft) (Dictionary.get? members name) (component d)
  | [], seen, draft, _, hd => by
    rw [Json.toMembers, Record.ofMembers] at hd
    split at hd
    · cases hd
    · obtain rfl := Except.ok.inj hd
      exact .none
  | (key, value) :: members, seen, draft, hseen, hd => by
    obtain ⟨_, hkey, hd⟩ := bind_eq_ok_iff.1 hd
    obtain rfl := Except.ok.inj hkey
    by_cases hname : key = name
    · subst hname
      have hgiven : Dictionary.get? ((key, value) :: members) key = some value := by
        simp [Dictionary.get?_cons]
      rw [if_pos (by simpa using h.mem), if_neg (by simpa using hseen)] at hd
      obtain ⟨next, hnext, hd⟩ := bind_eq_ok_iff.1 hd
      have hset := h.set source _ draft next (settling_eq_ok_iff.1 hnext)
      rw [hgiven, h.ofMembers_of_mem List.mem_cons_self hd]
      exact .some hset
    · have hgiven : Dictionary.get? ((key, value) :: members) name =
          Dictionary.get? members name := by
        simp [Dictionary.get?_cons, Ne.symm hname]
      rw [hgiven]
      split at hd
      · split at hd
        · cases hd
        · obtain ⟨next, hnext, hd⟩ := bind_eq_ok_iff.1 hd
          rw [← h.frame source key _ draft next hname (settling_eq_ok_iff.1 hnext)]
          exact h.ofMembers (by simp [hseen, Ne.symm hname]) hd
      · obtain ⟨-, -, hd⟩ := bind_eq_ok_iff.1 hd
        exact h.ofMembers hseen hd

/-- Behind the field no other item changes its component. -/
theorem ofItems_of_not_mem (h : r.Decodes name component decode) :
    ∀ {left : List String} {settled : Nat} {items : List Json} {draft : δ}, name ∉ left →
      r.ofItems source left settled (Json.toItems items) draft = .ok d →
        component d = component draft
  | [], settled, items, draft, _, hd => by
    obtain ⟨-, -, hd⟩ := bind_eq_ok_iff.1 hd
    rw [Except.ok.inj hd]
  | other :: left, settled, [], draft, _, hd => by
    simp only [Json.toItems, Record.ofItems] at hd
    split at hd
    · cases hd
    · rw [Except.ok.inj hd]
  | other :: left, settled, item :: items, draft, hname, hd => by
    obtain ⟨hother, hname⟩ : name ≠ other ∧ name ∉ left := by simpa using hname
    obtain ⟨next, hnext, hd⟩ := bind_eq_ok_iff.1 hd
    rw [h.ofItems_of_not_mem hname hd]
    exact h.frame source other _ draft next (Ne.symm hother) (settling_eq_ok_iff.1 hnext)

theorem ofItems (h : r.Decodes name component decode) :
    ∀ {left : List String} {settled : Nat} {items : List Json} {draft : δ}, left.Nodup →
      name ∈ left → r.ofItems source left settled (Json.toItems items) draft = .ok d →
        Decoded (decode source) (component draft) items[left.idxOf name]? (component d)
  | other :: left, settled, [], draft, _, _, hd => by
    simp only [Json.toItems, Record.ofItems] at hd
    split at hd
    · cases hd
    · obtain rfl := Except.ok.inj hd
      exact .none
  | other :: left, settled, item :: items, draft, hleft, hname, hd => by
    obtain ⟨hother, hleft⟩ := List.nodup_cons.1 hleft
    obtain ⟨next, hnext, hd⟩ := bind_eq_ok_iff.1 hd
    by_cases heq : other = name
    · subst heq
      have hset := h.set source _ draft next (settling_eq_ok_iff.1 hnext)
      rw [List.idxOf_cons_self, List.getElem?_cons_zero, h.ofItems_of_not_mem hother hd]
      exact .some hset
    · have hmem : name ∈ left := (List.mem_cons.1 hname).resolve_left (Ne.symm heq)
      rw [List.idxOf_cons_ne left heq, List.getElem?_cons_succ,
        ← h.frame source other _ draft next heq (settling_eq_ok_iff.1 hnext)]
      exact h.ofItems hleft hmem hd

/-- A record that is decoded from a value has what the value gives for a field. -/
theorem decode_toTree (h : r.Decodes name component decode) {draft : δ} {json : Json}
    (hd : r.decode .value draft json.toTree = .ok d) :
    Decoded (decode .value) (component draft) (r.fieldOf? name json) (component d) := by
  cases json with
  | null | bool | number | string => cases hd
  | array items =>
    obtain ⟨inner, hinner, hd⟩ := bind_eq_ok_iff.1 hd
    obtain rfl := Except.ok.inj hinner
    exact h.ofItems h.nodup h.mem hd
  | object members =>
    obtain ⟨inner, hinner, hd⟩ := bind_eq_ok_iff.1 hd
    obtain rfl := Except.ok.inj hinner
    exact h.ofMembers List.not_mem_nil hd

end Decodes

end Record

end SwaggerClient
