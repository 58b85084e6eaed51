import Mathlib.Data.List.Forall2
import SwaggerClient.Proofs.Json.Yields

/-!
# Path items by their content

The entries of a path item are looked at in the order of the text, once for the shared parameters
and once for the verbs.  What they give does not depend on where the shared parameters stand, nor
on the entries that are neither.
-/

namespace SwaggerClient

open List (Forall₂)

/-- The keys of an object with their values, if the object is whole. -/
def Members.entries? : Members → Option (List (String × Tree))
  | .closed _ => some []
  | .broken .. | .member (.error _) .. => none
  | .member (.ok key) _ _ value _ rest => rest.entries?.map ((key, value) :: ·)

theorem Members.entries?_member_eq_some_iff {key : String} {keyStop keySettled settled : Nat}
    {value : Tree} {rest : Members} {entries : List (String × Tree)} :
    (member (.ok key) keyStop keySettled value settled rest).entries? = some entries ↔
      ∃ others, rest.entries? = some others ∧ (key, value) :: others = entries := by
  simp [entries?]

/-! ## Verbs -/

/-- A word spells a verb when they differ at most in capitals. -/
theorem HttpMethod.ofName?_eq_some_iff {word : String} {method : HttpMethod} :
    ofName? word = some method ↔ word.toList.map Char.toLower = method.name.toList := by
  rw [ofName?]
  constructor
  · intro h
    have hname := List.find?_some h
    exact (beq_iff_eq.1 hname).symm
  · intro h
    rw [h]
    cases method <;> decide

/-- The verb that an entry is for, with the value of the entry. -/
def verbOf? (entry : String × Tree) : Option (HttpMethod × Tree) :=
  (HttpMethod.ofName? entry.1).map (·, entry.2)

/-! ## Two steps of decoding -/

/-- The parameters that are given for all operations. -/
def sharedParameters (source : Source) (entries : List (String × Tree)) :
    Except Fault (Option (List Parameter)) :=
  match Dictionary.get? entries "parameters" with
  | none => .ok none
  | some value => (decodeList Parameter.decode source value).map some

/-- An entry is taken whole. -/
def Taken (source : Source) (entry : String × Tree) (taken : String × Json) : Prop :=
  entry.1 = taken.1 ∧ entry.2.toJson source = .ok taken.2

/-- The entry of a verb gives an operation, to which the shared parameters are added. -/
def Gives (source : Source) (shared : List Parameter) (entry : HttpMethod × Tree)
    (given : HttpMethod × Operation) : Prop :=
  entry.1 = given.1 ∧ ∃ json own, entry.2.toJson source = .ok json ∧
    Operation.decode .value json.toTree = .ok own ∧ given.2 = own.inherit shared

/-- The entries of a path item that are kept for later. -/
def laterEntries (entries : List (String × Tree)) : List (String × Tree) :=
  entries.filter (·.1 ≠ "parameters")

namespace PathItemDraft

variable {source : Source}

/-- Behind the shared parameters all entries are kept. -/
theorem ofMembers_of_not_mem :
    ∀ {members : Members} {entries : List (String × Tree)} {draft draft' : PathItemDraft},
      members.entries? = some entries → "parameters" ∉ entries.map Prod.fst →
        (ofMembers source members draft = .ok draft' ↔
          ∃ taken, Forall₂ (Taken source) entries taken ∧
            draft' = { draft with entries := draft.entries ++ taken })
  | .closed _, entries, draft, draft', hentries, _ => by
    obtain rfl : [] = entries := by simpa [Members.entries?] using hentries
    rw [ofMembers, Except.ok.injEq]
    simp only [List.forall₂_nil_left_iff, exists_eq_left, List.append_nil]
    exact eq_comm
  | .member (.ok key) _ _ value _ rest, entries, draft, draft', hentries, hnot => by
    obtain ⟨others, hothers, rfl⟩ := Members.entries?_member_eq_some_iff.1 hentries
    obtain ⟨hkey, hnot⟩ : "parameters" ≠ key ∧ "parameters" ∉ others.map Prod.fst := by
      simpa only [List.map_cons, List.mem_cons, not_or] using hnot
    simp only [ofMembers, bind_eq_ok_iff, Except.ok.injEq, exists_eq_left', if_neg hkey.symm,
      ofMembers_of_not_mem hothers hnot, List.forall₂_cons_left_iff]
    constructor
    · rintro ⟨json, hjson, taken, htaken, rfl⟩
      exact ⟨(key, json) :: taken, ⟨_, _, ⟨rfl, hjson⟩, htaken, rfl⟩, by simp⟩
    · rintro ⟨_, ⟨⟨_, json⟩, taken, ⟨rfl, hjson⟩, htaken, rfl⟩, rfl⟩
      exact ⟨json, hjson, taken, htaken, by simp⟩

/-- The shared parameters are decoded, and all other entries are kept. -/
theorem ofMembers_eq_ok_iff :
    ∀ {members : Members} {entries : List (String × Tree)} {before : List (String × Json)}
      {draft : PathItemDraft}, members.entries? = some entries → (entries.map Prod.fst).Nodup →
        (ofMembers source members ⟨none, before⟩ = .ok draft ↔
          ∃ shared taken, sharedParameters source entries = .ok shared ∧
            Forall₂ (Taken source) (laterEntries entries) taken ∧ draft = ⟨shared, before ++ taken⟩)
  | .closed _, entries, before, draft, hentries, _ => by
    obtain rfl : [] = entries := by simpa [Members.entries?] using hentries
    simp [ofMembers, sharedParameters, laterEntries, Dictionary.get?, eq_comm]
  | .member (.ok key) _ _ value _ rest, entries, before, draft, hentries, hd => by
    obtain ⟨others, hothers, rfl⟩ := Members.entries?_member_eq_some_iff.1 hentries
    obtain ⟨hnew, hd⟩ : key ∉ others.map Prod.fst ∧ (others.map Prod.fst).Nodup := by
      simpa only [List.map_cons, List.nodup_cons] using hd
    by_cases hkey : key = "parameters"
    · -- No other entry has this key, so from here on all entries are kept.
      subst hkey
      have hlater : laterEntries (("parameters", value) :: others) = others := by
        have hothers : ∀ entry ∈ others, entry.1 ≠ "parameters" := fun entry hentry heq =>
          hnew (heq ▸ List.mem_map_of_mem hentry)
        simpa [laterEntries] using hothers
      have hshared : sharedParameters source (("parameters", value) :: others) =
          (decodeList Parameter.decode source value).map some := by
        simp [sharedParameters, Dictionary.get?_cons]
      simp only [ofMembers, bind_eq_ok_iff, Except.ok.injEq, exists_eq_left', if_true,
        Option.isSome_none, Bool.false_eq_true, if_false,
        settling_eq_ok_iff, ofMembers_of_not_mem hothers hnew, hlater, hshared]
      constructor
      · rintro ⟨shared, hdecoded, taken, htaken, rfl⟩
        exact ⟨some shared, taken, map_eq_ok_iff.2 ⟨shared, hdecoded, rfl⟩, htaken, rfl⟩
      · rintro ⟨_, taken, hdecoded, htaken, rfl⟩
        obtain ⟨shared, hshared, rfl⟩ := map_eq_ok_iff.1 hdecoded
        exact ⟨shared, hshared, taken, htaken, rfl⟩
    · have hlater : laterEntries ((key, value) :: others) =
          (key, value) :: laterEntries others := by
        simp [laterEntries, hkey]
      have hshared : sharedParameters source ((key, value) :: others) =
          sharedParameters source others := by
        rw [sharedParameters, Dictionary.get?_cons, if_neg (by simpa using Ne.symm hkey)]
        rfl
      simp only [ofMembers, bind_eq_ok_iff, Except.ok.injEq, exists_eq_left', if_neg hkey,
        ofMembers_eq_ok_iff hothers hd, hlater, hshared, List.forall₂_cons_left_iff]
      constructor
      · rintro ⟨json, hjson, shared, taken, hdecoded, htaken, rfl⟩
        exact ⟨shared, (key, json) :: taken, hdecoded, ⟨_, _, ⟨rfl, hjson⟩, htaken, rfl⟩, by simp⟩
      · rintro ⟨shared, _, hdecoded, ⟨⟨_, json⟩, taken, ⟨rfl, hjson⟩, htaken, rfl⟩, rfl⟩
        exact ⟨json, hjson, shared, taken, hdecoded, htaken, by simp⟩

end PathItemDraft

/-! ## The operations -/

section Operations

variable {source : Source} {shared : List Parameter}

theorem filterMapM_cons_eq_ok_iff {ε α β : Type} {f : α → Except ε (Option β)} {a : α}
    {l : List α} {bs : List β} :
    (a :: l).filterMapM f = .ok bs ↔
      ∃ b? rest, f a = .ok b? ∧ l.filterMapM f = .ok rest ∧ bs = b?.toList ++ rest := by
  rw [List.filterMapM_cons, bind_eq_ok_iff]
  constructor
  · rintro ⟨_ | b, ha, h⟩
    · exact ⟨none, bs, ha, h, rfl⟩
    · obtain ⟨rest, hrest, heq⟩ := bind_eq_ok_iff.1 h
      cases heq
      exact ⟨some b, rest, ha, hrest, rfl⟩
  · rintro ⟨_ | b, rest, ha, h, rfl⟩
    · exact ⟨none, ha, h⟩
    · exact ⟨some b, ha, bind_eq_ok_iff.2 ⟨rest, h, rfl⟩⟩

theorem entryOperation?_eq_ok_iff {key : String} {method : HttpMethod}
    (hverb : HttpMethod.ofName? key = some method) {json : Json}
    {given? : Option (HttpMethod × Operation)} :
    entryOperation? shared key json = .ok given? ↔
      ∃ own, Operation.decode .value json.toTree = .ok own ∧
        given? = some (method, own.inherit shared) := by
  rw [entryOperation?, hverb]
  cases Operation.decode .value json.toTree <;> simp [eq_comm]

theorem filterMapM_taken_cons_iff {α : Type} {f : String × Json → Except Fault (Option α)}
    {key : String} {value : Tree} {entries : List (String × Tree)} {results : List α} :
    (∃ taken, Forall₂ (Taken source) ((key, value) :: entries) taken ∧
        taken.filterMapM f = .ok results) ↔
      ∃ json first? rest, value.toJson source = .ok json ∧ f (key, json) = .ok first? ∧
        (∃ taken, Forall₂ (Taken source) entries taken ∧ taken.filterMapM f = .ok rest) ∧
        results = first?.toList ++ rest := by
  simp only [List.forall₂_cons_left_iff]
  constructor
  · rintro ⟨_, ⟨⟨_, json⟩, taken, ⟨rfl, hjson⟩, htaken, rfl⟩, hresults⟩
    obtain ⟨first?, rest, hfirst, hrest, rfl⟩ := filterMapM_cons_eq_ok_iff.1 hresults
    exact ⟨json, first?, rest, hjson, hfirst, ⟨taken, htaken, hrest⟩, rfl⟩
  · rintro ⟨json, first?, rest, hjson, hfirst, ⟨taken, htaken, hrest⟩, rfl⟩
    exact ⟨(key, json) :: taken, ⟨_, _, ⟨rfl, hjson⟩, htaken, rfl⟩,
      filterMapM_cons_eq_ok_iff.2 ⟨first?, rest, hfirst, hrest, rfl⟩⟩

/-- The entries that are kept are all taken, and those of verbs give the operations. -/
theorem filterMapM_entryOperation?_iff {entries : List (String × Tree)}
    {operations : List (HttpMethod × Operation)} :
    (∃ taken, Forall₂ (Taken source) entries taken ∧
        taken.filterMapM (fun (key, json) => entryOperation? shared key json) = .ok operations) ↔
      (∀ entry ∈ entries, ∃ json, entry.2.toJson source = .ok json) ∧
        Forall₂ (Gives source shared) (entries.filterMap verbOf?) operations := by
  -- An entry that is no verb has to be taken too, though nothing comes of it.
  induction entries generalizing operations with
  | nil => simp [eq_comm, pure, Except.pure]
  | cons entry entries ih =>
    obtain ⟨key, value⟩ := entry
    simp only [filterMapM_taken_cons_iff, ih, List.forall_mem_cons, List.filterMap_cons, verbOf?]
    cases hverb : HttpMethod.ofName? key with
    | none =>
      have hskipped (json : Json) : entryOperation? shared key json = .ok none := by
        simp [entryOperation?, hverb]
      simp only [Option.map_none, hskipped, Except.ok.injEq]
      constructor
      · rintro ⟨json, _, rest, hjson, rfl, ⟨hall, hrest⟩, rfl⟩
        exact ⟨⟨⟨json, hjson⟩, hall⟩, hrest⟩
      · rintro ⟨⟨⟨json, hjson⟩, hall⟩, hrest⟩
        exact ⟨json, none, operations, hjson, rfl, ⟨hall, hrest⟩, rfl⟩
    | some method =>
      simp only [Option.map_some, entryOperation?_eq_ok_iff hverb, List.forall₂_cons_left_iff]
      constructor
      · rintro ⟨json, _, rest, hjson, ⟨own, hown, rfl⟩, ⟨hall, hrest⟩, rfl⟩
        exact ⟨⟨⟨json, hjson⟩, hall⟩, _, rest, ⟨rfl, json, own, hjson, hown, rfl⟩, hrest, rfl⟩
      · rintro ⟨⟨-, hall⟩, ⟨_, _⟩, rest, ⟨rfl, json, own, hjson, hown, rfl⟩, hrest, rfl⟩
        exact ⟨json, _, rest, hjson, ⟨own, hown, rfl⟩, ⟨hall, hrest⟩, rfl⟩

theorem keys_eq_of_forall₂ {κ α β : Type} {R : κ × α → κ × β → Prop}
    (hkey : ∀ a b, R a b → a.1 = b.1) {l : List (κ × α)} {l' : List (κ × β)}
    (h : Forall₂ R l l') : l'.map Prod.fst = l.map Prod.fst := by
  induction h with
  | nil => rfl
  | cons hentry _ ih => rw [List.map_cons, List.map_cons, hkey _ _ hentry, ih]

theorem exists_of_forall₂_append_cons {α β : Type} {R : α → β → Prop} {l : List α}
    {before after : List β} {b : β} (h : Forall₂ R l (before ++ b :: after)) :
    ∃ before' a after', l = before' ++ a :: after' ∧ R a b ∧ Forall₂ R after' after := by
  induction before generalizing l with
  | nil =>
    obtain ⟨a, after', ha, hafter, rfl⟩ := List.forall₂_cons_right_iff.1 h
    exact ⟨[], a, after', rfl, ha, hafter⟩
  | cons b' before ih =>
    obtain ⟨a', rest, -, hrest, rfl⟩ := List.forall₂_cons_right_iff.1 h
    obtain ⟨before', a, after', rfl, ha, hafter⟩ := ih hrest
    exact ⟨a' :: before', a, after', rfl, ha, hafter⟩

theorem verbOf?_parameters (value : Tree) : verbOf? ("parameters", value) = none := by
  have hnone : HttpMethod.ofName? "parameters" = none := by decide +kernel
  rw [verbOf?, hnone, Option.map_none]

/-- No entry of a verb is among the shared parameters. -/
theorem filterMap_laterEntries (entries : List (String × Tree)) :
    (laterEntries entries).filterMap verbOf? = entries.filterMap verbOf? := by
  rw [laterEntries, List.filterMap_filter]
  refine List.filterMap_congr fun entry _ => ?_
  by_cases h : entry.1 = "parameters"
  · obtain ⟨key, value⟩ := entry
    subst h
    simp [verbOf?_parameters]
  · simp [h]

/-- When an object is a path item, and which one. -/
theorem decodePathItem_eq_ok_iff {start : Nat} {members : Members}
    {entries : List (String × Tree)} {item : PathItem} (hentries : members.entries? = some entries)
    (hd : (entries.map Prod.fst).Nodup) :
    PathItem.decode source (.object start members) = .ok item ↔
      ∃ inner shared operations, source.enter start = .ok inner ∧
        sharedParameters inner entries = .ok shared ∧
        (∀ entry ∈ laterEntries entries, ∃ json, entry.2.toJson inner = .ok json) ∧
        Forall₂ (Gives inner (shared.getD [])) (entries.filterMap verbOf?) operations ∧
        item = Dictionary.ofList operations := by
  have hlater : ((laterEntries entries).map Prod.fst).Nodup :=
    hd.sublist (List.filter_sublist.map _)
  have hself {inner : Source} {taken : List (String × Json)}
      (htaken : Forall₂ (Taken inner) (laterEntries entries) taken) :
      Dictionary.ofList taken = taken := by
    apply Dictionary.ofList_eq_self
    rwa [Dictionary.keys, keys_eq_of_forall₂ (fun _ _ => And.left) htaken]
  simp only [PathItem.decode, bind_eq_ok_iff, PathItemDraft.ofMembers_eq_ok_iff hentries hd,
    PathItemDraft.operations, ← filterMap_laterEntries entries]
  constructor
  · rintro ⟨inner, hinner, _, ⟨shared, taken, hshared, htaken, rfl⟩, operations, hgiven, heq⟩
    cases heq
    rw [List.nil_append, hself htaken] at hgiven
    obtain ⟨hall, hgives⟩ := filterMapM_entryOperation?_iff.1 ⟨taken, htaken, hgiven⟩
    exact ⟨inner, shared, operations, hinner, hshared, hall, hgives, rfl⟩
  · rintro ⟨inner, shared, operations, hinner, hshared, hall, hgives, rfl⟩
    obtain ⟨taken, htaken, hgiven⟩ := filterMapM_entryOperation?_iff.2 ⟨hall, hgives⟩
    refine ⟨inner, hinner, _, ⟨shared, taken, hshared, htaken, rfl⟩, operations, ?_, rfl⟩
    rwa [List.nil_append, hself htaken]

/-- What an item has for a verb comes from the last entry that spells the verb. -/
theorem exists_last_entry {entries : List (String × Tree)}
    {operations : List (HttpMethod × Operation)} {method : HttpMethod} {operation : Operation}
    (hgives : Forall₂ (Gives source shared) (entries.filterMap verbOf?) operations)
    (hmem : (method, operation) ∈ Dictionary.ofList operations) :
    ∃ before key value after, entries = before ++ (key, value) :: after ∧
      HttpMethod.ofName? key = some method ∧
      (∀ entry ∈ after, HttpMethod.ofName? entry.1 ≠ some method) ∧
      Gives source shared (method, value) (method, operation) := by
  obtain ⟨_, later, rfl, hlater⟩ := Dictionary.exists_last_of_mem_ofList hmem
  obtain ⟨_, ⟨verb, value⟩, laterVerbs, hverbs, hgiven, hrest⟩ :=
    exists_of_forall₂_append_cons hgives
  obtain rfl : verb = method := hgiven.1
  obtain ⟨front, back, rfl, -, hback⟩ := List.filterMap_eq_append_iff.1 hverbs
  obtain ⟨skipped, ⟨key, t⟩, after, rfl, -, hentry, rfl⟩ := List.filterMap_eq_cons_iff.1 hback
  obtain ⟨hname, rfl⟩ : HttpMethod.ofName? key = some verb ∧ t = value := by
    simpa [verbOf?] using hentry
  refine ⟨front ++ skipped, key, t, after, by simp, hname, fun entry hmem heq => ?_, hgiven⟩
  -- A later entry for the verb would have given an operation behind the last one.
  have hverb : verbOf? entry = some (verb, entry.2) := by rw [verbOf?, heq, Option.map_some]
  have hlate : verb ∈ (after.filterMap verbOf?).map Prod.fst :=
    List.mem_map.2 ⟨_, List.mem_filterMap.2 ⟨entry, hmem, hverb⟩, rfl⟩
  rw [← keys_eq_of_forall₂ (fun _ _ => And.left) hrest] at hlate
  exact hlater hlate

theorem exists_toJson_of_gives {entries : List (String × Tree)}
    {operations : List (HttpMethod × Operation)} {entry : String × Tree} {method : HttpMethod}
    (hgives : Forall₂ (Gives source shared) (entries.filterMap verbOf?) operations)
    (hentry : entry ∈ entries) (hverb : HttpMethod.ofName? entry.1 = some method) :
    ∃ json, entry.2.toJson source = .ok json := by
  have hboth : Forall₂ (fun verb given => (∃ json, verb.2.toJson source = .ok json) ∧
      Gives source shared verb given) (entries.filterMap verbOf?) operations :=
    hgives.imp fun verb given ⟨hkey, json, own, hjson, hown⟩ =>
      ⟨⟨json, hjson⟩, hkey, json, own, hjson, hown⟩
  have hmem : (method, entry.2) ∈ entries.filterMap verbOf? :=
    List.mem_filterMap.2 ⟨entry, hentry, by rw [verbOf?, hverb, Option.map_some]⟩
  exact ((List.forall₂_and_left _ _).1 hboth).1 _ hmem

theorem map_fst_filterMap_verbOf? (entries : List (String × Tree)) :
    (entries.filterMap verbOf?).map Prod.fst =
      entries.filterMap fun entry => HttpMethod.ofName? entry.1 := by
  rw [List.map_filterMap]
  refine List.filterMap_congr fun entry _ => ?_
  simp [verbOf?, Option.map_map, Function.comp_def]

/-! ## Shared parameters -/

theorem decodeList_of_sharedParameters {entries : List (String × Tree)}
    {shared? : Option (List Parameter)} {value : Tree} (hd : (entries.map Prod.fst).Nodup)
    (h : sharedParameters source entries = .ok shared?) (hvalue : ("parameters", value) ∈ entries) :
    decodeList Parameter.decode source value = .ok (shared?.getD []) := by
  rw [sharedParameters, Dictionary.get?_of_mem hd hvalue] at h
  obtain ⟨shared, hdecoded, rfl⟩ := map_eq_ok_iff.1 h
  exact hdecoded

theorem sharedParameters_of_not_mem {entries : List (String × Tree)}
    (h : "parameters" ∉ entries.map Prod.fst) : sharedParameters source entries = .ok none := by
  rw [sharedParameters, Dictionary.get?_eq_none_iff.2 h]

/-! ## Other layouts -/

/-- Two objects have the same verbs with the same values in the same order, and the same shared
parameters, wherever they stand. -/
structure SameContent (entries entries' : List (String × Tree)) : Prop where
  verbs : (entries'.filterMap verbOf?).map (Prod.map id Tree.unplaced) =
    (entries.filterMap verbOf?).map (Prod.map id Tree.unplaced)
  parameters : (Dictionary.get? entries' "parameters").map Tree.unplaced =
    (Dictionary.get? entries "parameters").map Tree.unplaced

theorem gives_unplaced_iff {entry : HttpMethod × Tree} {given : HttpMethod × Operation} :
    Gives source shared (Prod.map id Tree.unplaced entry) given ↔
      Gives source shared entry given := by
  have hjson (json : Json) :
      entry.2.unplaced.toJson source = .ok json ↔ entry.2.toJson source = .ok json := by
    rw [← toOption_eq_some_iff, Placeless.toJson source entry.2, toOption_eq_some_iff]
  simp only [Gives, Prod.map_fst, Prod.map_snd, id_eq, hjson]

theorem SameContent.gives {entries entries' : List (String × Tree)}
    {operations : List (HttpMethod × Operation)} (h : SameContent entries entries')
    (hgives : Forall₂ (Gives source shared) (entries.filterMap verbOf?) operations) :
    Forall₂ (Gives source shared) (entries'.filterMap verbOf?) operations := by
  have hsame (l : List (HttpMethod × Tree)) :
      Forall₂ (Gives source shared) (l.map (Prod.map id Tree.unplaced)) operations ↔
        Forall₂ (Gives source shared) l operations := by
    simp only [List.forall₂_map_left_iff, gives_unplaced_iff]
  rw [← hsame, h.verbs, hsame]
  exact hgives

theorem SameContent.sharedParameters_eq {entries entries' : List (String × Tree)}
    (h : SameContent entries entries') :
    (sharedParameters source entries').toOption = (sharedParameters source entries).toOption := by
  have hdata (entries : List (String × Tree)) : (sharedParameters source entries).toOption =
      match (Dictionary.get? entries "parameters").map Tree.unplaced with
      | none => some none
      | some value => (decodeList Parameter.decode source value).toOption.map some := by
    rw [sharedParameters]
    cases Dictionary.get? entries "parameters" with
    | none => rfl
    | some value =>
      have hvalue := Placeless.list Placeless.parameter source value
      exact (toOption_map some _).trans (congrArg (Option.map some) hvalue.symm)
  rw [hdata, hdata, h.parameters]

end Operations

/-- Another object with the same content is the same path item, if what it has besides can be
taken. -/
theorem decodePathItem_of_sameContent {source inner : Source} {start start' : Nat}
    {members members' : Members} {entries entries' : List (String × Tree)} {item : PathItem}
    (hentries : members.entries? = some entries) (hd : (entries.map Prod.fst).Nodup)
    (hitem : PathItem.decode source (.object start members) = .ok item)
    (hinner : source.enter start = .ok inner) (hentries' : members'.entries? = some entries')
    (hd' : (entries'.map Prod.fst).Nodup) (hsame : SameContent entries entries')
    (hforeign : ∀ entry ∈ entries', entry.1 ≠ "parameters" →
      HttpMethod.ofName? entry.1 = none → ∃ json, entry.2.toJson inner = .ok json) :
    PathItem.decode source (.object start' members') = .ok item := by
  obtain ⟨inner', shared?, operations, heq, hshared, -, hgives, rfl⟩ :=
    (decodePathItem_eq_ok_iff hentries hd).1 hitem
  obtain rfl : inner = inner' := Except.ok.inj (hinner.symm.trans heq)
  have henter : source.enter start' = .ok inner := by
    rw [← toOption_eq_some_iff, toOption_enter, ← toOption_enter source start, hinner, toOption_ok]
  have hshared' : sharedParameters inner entries' = .ok shared? := by
    rw [← toOption_eq_some_iff, hsame.sharedParameters_eq, hshared, toOption_ok]
  have hgives' := hsame.gives hgives
  refine (decodePathItem_eq_ok_iff hentries' hd').2
    ⟨inner, shared?, operations, henter, hshared', fun entry hentry => ?_, hgives', rfl⟩
  obtain ⟨hmem, hkey⟩ := List.mem_filter.1 hentry
  cases hverb : HttpMethod.ofName? entry.1 with
  | none => exact hforeign entry hmem (by simpa using hkey) hverb
  | some method => exact exists_toJson_of_gives hgives' hmem hverb

/-! ## Values that have been read before -/

theorem Json.entries?_toMembers (members : List (String × Json)) :
    (Json.toMembers members).entries? =
      some (members.map fun (key, value) => (key, value.toTree)) := by
  induction members with
  | nil => rfl
  | cons member members ih => simp [Json.toMembers, Members.entries?, ih]

mutual

/-- A value that has been taken before can be taken again. -/
theorem Json.exists_toJson_toTree : ∀ value : Json, ∃ json, value.toTree.toJson .value = .ok json
  | .null => ⟨_, rfl⟩
  | .bool _ => ⟨_, rfl⟩
  | .number _ => ⟨_, rfl⟩
  | .string _ => ⟨_, rfl⟩
  | .array items => by
    obtain ⟨jsons, hjsons⟩ := exists_toJson_toItems items
    exact ⟨_, bind_eq_ok_iff.2 ⟨.value, rfl, bind_eq_ok_iff.2 ⟨jsons, hjsons, rfl⟩⟩⟩
  | .object members => by
    obtain ⟨jsons, hjsons⟩ := exists_toJson_toMembers members
    exact ⟨_, bind_eq_ok_iff.2 ⟨.value, rfl, bind_eq_ok_iff.2 ⟨jsons, hjsons, rfl⟩⟩⟩

theorem Json.exists_toJson_toItems :
    ∀ items : List Json, ∃ jsons, (Json.toItems items).toJson .value = .ok jsons
  | [] => ⟨_, rfl⟩
  | item :: items => by
    obtain ⟨json, hjson⟩ := item.exists_toJson_toTree
    obtain ⟨jsons, hjsons⟩ := exists_toJson_toItems items
    exact ⟨_, bind_eq_ok_iff.2 ⟨json, hjson, bind_eq_ok_iff.2 ⟨jsons, hjsons, rfl⟩⟩⟩

theorem Json.exists_toJson_toMembers :
    ∀ members : List (String × Json), ∃ jsons, (Json.toMembers members).toJson .value = .ok jsons
  | [] => ⟨_, rfl⟩
  | (key, value) :: members => by
    obtain ⟨json, hjson⟩ := value.exists_toJson_toTree
    obtain ⟨jsons, hjsons⟩ := exists_toJson_toMembers members
    exact ⟨_, bind_eq_ok_iff.2 ⟨key, rfl, bind_eq_ok_iff.2 ⟨json, hjson,
      bind_eq_ok_iff.2 ⟨jsons, hjsons, rfl⟩⟩⟩⟩

end

/-! ## Path items -/

/-- The parameters of an operation come from its field for them. -/
theorem decodes_parameters :
    operationRecord.Decodes "parameters" Operation.parameters (decodeList Parameter.decode) where
  nodup := by decide
  mem := by decide
  set source t draft d hd := by
    obtain ⟨parameters, hparameters, hd⟩ := bind_eq_ok_iff.1 hd
    obtain rfl := Except.ok.inj hd
    exact hparameters
  frame source other t draft d hother hd := by
    unfold operationRecord at hd
    dsimp only at hd
    split at hd
    case h_4 => exact absurd rfl hother
    case h_6 => rw [← Except.ok.inj hd]
    all_goals
      obtain ⟨_, -, hd⟩ := bind_eq_ok_iff.1 hd
      rw [← Except.ok.inj hd]

/-- Of the shared parameters an operation takes those for which it has none of its own with the
same name and location. -/
theorem Operation.inherit_eq (own : Operation) (shared : List Parameter) :
    own.inherit shared =
      { own with
        parameters := (shared.filter fun p =>
          ∀ q ∈ own.parameters, ¬(q.name = p.name ∧ q.location = p.location)) ++
            own.parameters } := by
  have hfilter : (shared.filter fun p => !own.parameters.any (·.overrides p)) =
      shared.filter fun p =>
        ∀ q ∈ own.parameters, ¬(q.name = p.name ∧ q.location = p.location) := by
    refine List.filter_congr fun p _ => ?_
    rw [Bool.eq_iff_iff]
    simp [Parameter.overrides]
  rw [inherit, hfilter]

/-- **A path item is read by its content.**  It has the verbs of its keys, in capitals or not, in
the order in which they first come.  What it has for a verb comes from the last key that spells it:
the operation's own parameters are those that its field `parameters` gives, none without the field,
and in front of them stand those shared parameters for which it has none of the same name and
location.  Any other object with the same verbs and shared parameters is the same path item,
wherever the shared parameters stand and whatever else it has, as long as that can be taken at all,
as every value that has been read before can. -/
theorem PathItem.decode_content {source : Source} {start : Nat} {members : Members}
    {entries : List (String × Tree)} {item : PathItem} (hentries : members.entries? = some entries)
    (hd : (entries.map Prod.fst).Nodup)
    (hitem : PathItem.decode source (.object start members) = .ok item) :
    ∃ inner shared, source.enter start = .ok inner ∧
      (∀ value, ("parameters", value) ∈ entries →
        decodeList Parameter.decode inner value = .ok shared) ∧
      ("parameters" ∉ entries.map Prod.fst → shared = []) ∧
      Dictionary.keys item = (entries.filterMap fun entry => HttpMethod.ofName? entry.1).eraseDups ∧
      (∀ method operation, (method, operation) ∈ item →
        ∃ before key value after json own, entries = before ++ (key, value) :: after ∧
          key.toList.map Char.toLower = method.name.toList ∧
          (∀ entry ∈ after, entry.1.toList.map Char.toLower ≠ method.name.toList) ∧
          value.toJson inner = .ok json ∧ Operation.decode .value json.toTree = .ok own ∧
          (∀ given, operationRecord.fieldOf? "parameters" json = some given →
            decodeList Parameter.decode .value given.toTree = .ok own.parameters) ∧
          (operationRecord.fieldOf? "parameters" json = none → own.parameters = []) ∧
          operation = { own with
            parameters := (shared.filter fun p =>
              ∀ q ∈ own.parameters, ¬(q.name = p.name ∧ q.location = p.location)) ++
                own.parameters }) ∧
      ∀ start' members' entries', members'.entries? = some entries' →
        (entries'.map Prod.fst).Nodup → SameContent entries entries' →
        (∀ entry ∈ entries', entry.1 ≠ "parameters" → HttpMethod.ofName? entry.1 = none →
          ∃ json, entry.2.toJson inner = .ok json) →
        PathItem.decode source (.object start' members') = .ok item := by
  obtain ⟨inner, shared?, operations, hinner, hshared, hall, hgives, rfl⟩ :=
    (decodePathItem_eq_ok_iff hentries hd).1 hitem
  refine ⟨inner, shared?.getD [], hinner, ?_, ?_, ?_, ?_, ?_⟩
  · intro value hvalue
    exact decodeList_of_sharedParameters hd hshared hvalue
  · intro hnone
    rw [sharedParameters_of_not_mem hnone] at hshared
    cases hshared
    rfl
  · rw [Dictionary.keys_ofList, keys_eq_of_forall₂ (fun _ _ => And.left) hgives,
      map_fst_filterMap_verbOf?]
  · intro method operation hmem
    obtain ⟨before, key, value, after, heq, hkey, hafter, -, json, own, hjson, hown, rfl⟩ :=
      exists_last_entry hgives hmem
    obtain ⟨hgiven, hmissing⟩ := decodes_parameters.decode_toTree hown
    exact ⟨before, key, value, after, json, own, heq, HttpMethod.ofName?_eq_some_iff.1 hkey,
      fun entry hentry => mt HttpMethod.ofName?_eq_some_iff.2 (hafter entry hentry), hjson, hown,
      hgiven, hmissing, own.inherit_eq _⟩
  · intro start' members' entries' hentries' hd' hsame hforeign
    exact decodePathItem_of_sameContent hentries hd hitem hinner hentries' hd' hsame hforeign

namespace PathItem

/-- A parameter in a document. -/
def parameterJson (name location : String) : Json :=
  .object [("name", .string name), ("in", .string location)]

/-- The entries of a path item that spells a verb twice. -/
def sample : List (String × Json) :=
  [("parameters", .array [parameterJson "id" "path", parameterJson "lang" "query"]),
    ("x-internal", .bool true),
    ("get", .object []),
    ("delete", .object []),
    ("GET", .object [("parameters", .array [parameterJson "lang" "query"])])]

/-- The same path item with its shared parameters at the end and other extensions. -/
def sampleMoved : List (String × Json) :=
  [("x-note", .array [.null]),
    ("get", .object []),
    ("delete", .object []),
    ("summary", .null),
    ("GET", .object [("parameters", .array [parameterJson "lang" "query"])]),
    ("parameters", .array [parameterJson "id" "path", parameterJson "lang" "query"])]

theorem sameContent_sample :
    SameContent (sample.map fun (key, value) => (key, value.toTree))
      (sampleMoved.map fun (key, value) => (key, value.toTree)) :=
  ⟨rfl, rfl⟩

theorem decode_content_sample :
    ∃ item, PathItem.decode .value (Json.object sample).toTree = .ok item ∧
      Dictionary.keys item = [.get, .delete] ∧
      PathItem.decode .value (Json.object sampleMoved).toTree = .ok item := by
  have hsome : (PathItem.decode .value (Json.object sample).toTree).toOption.isSome := by
    decide +kernel
  obtain ⟨item, hitem⟩ := Option.isSome_iff_exists.1 hsome
  rw [toOption_eq_some_iff] at hitem
  obtain ⟨inner, shared, hinner, -, -, hkeys, -, hlayout⟩ :=
    decode_content (Json.entries?_toMembers sample) (by decide +kernel) hitem
  cases hinner
  refine ⟨item, hitem, ?_, ?_⟩
  · rw [hkeys]
    decide +kernel
  · refine hlayout 0 _ _ (Json.entries?_toMembers sampleMoved) (by decide +kernel)
      sameContent_sample fun entry hentry _ _ => ?_
    obtain ⟨member, -, rfl⟩ := List.mem_map.1 hentry
    exact member.2.exists_toJson_toTree

end PathItem

end SwaggerClient
