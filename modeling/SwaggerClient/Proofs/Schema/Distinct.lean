import SwaggerClient.Proofs.Json.Yields
import SwaggerClient.Proofs.Schema.Form

/-!
# Names of properties

The properties of a node that is decoded have distinct names, however often a name stands in the
text, and so have those of all nodes inside it.
-/

namespace SwaggerClient.SchemaNode

/-- Whether the properties of a node, and those of every node inside it, have distinct names. -/
inductive DistinctProperties : SchemaNode → Prop
  | intro {node : SchemaNode} (names : ((node.properties.getD []).map Prod.fst).Nodup)
      (allOf : ∀ part ∈ node.allOf, DistinctProperties part)
      (anyOf : ∀ part ∈ node.anyOf, DistinctProperties part)
      (properties : ∀ property ∈ node.properties.getD [], DistinctProperties property.2)
      (items : ∀ item ∈ node.items, DistinctProperties item)
      (additional : ∀ value ∈ node.additionalSchema, DistinctProperties value) :
      DistinctProperties node

namespace DistinctProperties

/-- A node without fields has no properties. -/
theorem empty : DistinctProperties {} := by
  constructor <;> simp [additionalSchema]

/-! ## Decoded nodes -/

variable {decode : Source → Tree → Except Fault SchemaNode}

theorem yields_additional (h : ∀ source, Yields DistinctProperties (decode source))
    (source : Source) :
    Yields (fun additional => ∀ value, additional = .schema value → value.DistinctProperties)
      (decodeAdditional decode source) := by
  refine Yields.forms _ (fun t additional ht value hvalue => ?_) source
  subst hvalue
  split at ht
  · cases ht
  · obtain ⟨other, hother, heq⟩ := Option.map_eq_some_iff.1 ht
    obtain rfl : other = value := by simpa using heq
    exact h .value t other (toOption_eq_some_iff.1 hother)

/-- What is put into a node has distinct names when all nodes in it are decoded to such. -/
theorem keeps_schemaRecord (h : ∀ source, Yields DistinctProperties (decode source)) :
    (schemaRecord decode).Keeps DistinctProperties := by
  rintro source name draft ⟨names, allOf, anyOf, properties, items, additional⟩
  unfold schemaRecord
  dsimp only
  -- The fields in the order of the record, and at last a name that is none of them.
  split
  · exact (Yields.any _).map fun _ _ => ⟨names, allOf, anyOf, properties, items, additional⟩
  · exact (Yields.any _).map fun _ _ => ⟨names, allOf, anyOf, properties, items, additional⟩
  · exact (Yields.list h source).map fun _ allOf =>
      ⟨names, allOf, anyOf, properties, items, additional⟩
  · exact (Yields.list h source).map fun _ anyOf =>
      ⟨names, allOf, anyOf, properties, items, additional⟩
  · exact (Yields.any _).map fun _ _ => ⟨names, allOf, anyOf, properties, items, additional⟩
  · refine (Yields.dictionary h source).option.map fun given hgiven => ?_
    cases given with
    | none => exact ⟨List.nodup_nil, allOf, anyOf, by simp, items, additional⟩
    | some given =>
      obtain ⟨names, properties⟩ := hgiven given rfl
      exact ⟨names, allOf, anyOf, properties, items, additional⟩
  · exact (h source).option.map fun _ items =>
      ⟨names, allOf, anyOf, properties, items, additional⟩
  · exact (Yields.any _).map fun _ _ => ⟨names, allOf, anyOf, properties, items, additional⟩
  · refine (yields_additional h source).option.map fun given hgiven =>
      ⟨names, allOf, anyOf, properties, items, fun value hvalue => ?_⟩
    rcases given with _ | (_ | other)
    · cases hvalue
    · cases hvalue
    · exact hgiven _ rfl value (by simpa [additionalSchema] using hvalue)
  · exact (Yields.any _).map fun _ _ => ⟨names, allOf, anyOf, properties, items, additional⟩
  · intro t node hnode
    obtain rfl : draft = node := Except.ok.inj hnode
    exact ⟨names, allOf, anyOf, properties, items, additional⟩

theorem yields_decodeWithin (levels : Nat) (source : Source) :
    Yields DistinctProperties (decodeWithin levels source) := by
  induction levels generalizing source with
  | zero => exact fun _ _ h => by cases h
  | succ levels ih => exact (keeps_schemaRecord ih).decode source empty

end DistinctProperties

/-- The nodes that are decoded have distinct names of properties. -/
theorem yields_decode (source : Source) : Yields DistinctProperties (decode source) :=
  fun t => DistinctProperties.yields_decodeWithin _ source t

end SwaggerClient.SchemaNode
