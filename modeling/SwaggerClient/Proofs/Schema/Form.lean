import SwaggerClient.Lint.UndefinedReference
import SwaggerClient.Schema.Kind

/-!
# Forms of schema nodes

Of the fields of a node one group decides what the node describes.  The form of a
node is that group, and the parts of a node are the nodes in its fields.
-/

namespace SwaggerClient

/-- What decides the type of a node. -/
inductive SchemaForm where
  /-- The definition that the node stands for. -/
  | reference (name : String)
  | allOf (nodes : List SchemaNode)
  | anyOf (nodes : List SchemaNode)
  | values (values : List Json)
  | kinds (kinds : List Kind)

namespace SchemaNode

/-- The form of a node.  An empty list of compositions or values counts as absent. -/
def form (node : SchemaNode) : SchemaForm :=
  match node.ref with
  | some pointer => .reference (definitionName pointer)
  | none =>
    if node.allOf ≠ [] then .allOf node.allOf
    else if node.anyOf ≠ [] then .anyOf node.anyOf
    else if node.enumeration ≠ [] then .values node.enumeration
    else .kinds node.kinds

/-- The nodes in the fields of a node. -/
def parts (node : SchemaNode) : List SchemaNode :=
  node.allOf ++ node.anyOf ++ (node.properties.getD []).map Prod.snd ++ node.items.toList
    ++ node.additionalSchema.toList

/-- Induction on schema nodes: a property of all nodes that holds of a node when it
holds of its parts. -/
@[elab_as_elim]
theorem induct {motive : SchemaNode → Prop}
    (step : ∀ node : SchemaNode, (∀ part ∈ node.parts, motive part) → motive node)
    (node : SchemaNode) : motive node :=
  SchemaNode.rec (motive_1 := motive) (motive_2 := fun nodes => ∀ n ∈ nodes, motive n)
    (motive_3 := fun properties => ∀ p ∈ properties.getD [], motive p.2)
    (motive_4 := fun item => ∀ n ∈ item, motive n)
    (motive_5 := fun additional => ∀ n, additional = some (.schema n) → motive n)
    (motive_6 := fun properties => ∀ p ∈ properties, motive p.2)
    (motive_7 := fun additional => ∀ n, additional = .schema n → motive n)
    (motive_8 := fun p => motive p.2)
    (fun type ref allOf anyOf values properties items required additional description
        hall hany hproperties hitem hadditional => by
      refine step _ fun part hpart => ?_
      simp only [parts, List.mem_append, List.mem_map, Option.mem_toList] at hpart
      rcases hpart with (((h | h) | ⟨p, hp, rfl⟩) | h) | h
      · exact hall part h
      · exact hany part h
      · exact hproperties p hp
      · exact hitem part h
      · refine hadditional part ?_
        unfold additionalSchema at h
        split at h
        next value hvalue =>
          obtain rfl : value = part := by simpa using h
          exact hvalue
        next => simp at h)
    (by simp) (fun _ _ hn hns => List.forall_mem_cons.2 ⟨hn, hns⟩)
    (by simp) (fun ps hps => by simpa using hps)
    (by simp) (fun n hn => by simpa using hn)
    (by simp) (fun a ha => by simpa using ha)
    (by simp) (fun _ _ hp hps => List.forall_mem_cons.2 ⟨hp, hps⟩)
    (by simp) (fun n hn => by simpa using hn)
    (fun _ _ h => h) node

/-! ## What a form says of the fields -/

variable {node : SchemaNode}

/-- The form of a node is what its fields say: a reference, else a composition, else a
list of values, else kinds. -/
theorem form_spec (node : SchemaNode) :
    match node.form with
    | .reference name => node.refName = some name
    | .allOf nodes => node.refName = none ∧ node.allOf = nodes ∧ nodes ≠ []
    | .anyOf nodes => node.refName = none ∧ node.anyOf = nodes ∧ nodes ≠ []
    | .values values => node.refName = none ∧ node.enumeration = values ∧ values ≠ []
    | .kinds kinds => node.refName = none ∧ node.allOf = [] ∧ node.anyOf = [] ∧
        node.enumeration = [] ∧ node.kinds = kinds := by
  unfold form
  cases hr : node.ref with
  | some pointer => simp [refName, hr]
  | none =>
    have hn : node.refName = none := by simp [refName, hr]
    by_cases hall : node.allOf = []
    · by_cases hany : node.anyOf = []
      · by_cases hvalues : node.enumeration = []
        · simp [hn, hall, hany, hvalues]
        · simp [hn, hall, hany, hvalues]
      · simp [hn, hall, hany]
    · simp [hn, hall]

/-- Every node is of some kind. -/
theorem kinds_ne_nil (node : SchemaNode) : node.kinds ≠ [] := by
  unfold kinds kindsOf
  split
  · simp
  · simp
  · split
    · simp
    · split <;> simp

theorem refName_of_form {name : String} (h : node.form = .reference name) :
    node.refName = some name := by
  have := node.form_spec
  rwa [h] at this

theorem allOf_of_form {nodes : List SchemaNode} (h : node.form = .allOf nodes) :
    node.allOf = nodes := by
  have := node.form_spec
  rw [h] at this
  exact this.2.1

theorem anyOf_of_form {nodes : List SchemaNode} (h : node.form = .anyOf nodes) :
    node.anyOf = nodes := by
  have := node.form_spec
  rw [h] at this
  exact this.2.1

theorem mem_parts_of_allOf {part : SchemaNode} (h : part ∈ node.allOf) : part ∈ node.parts := by
  simp [parts, h]

theorem mem_parts_of_anyOf {part : SchemaNode} (h : part ∈ node.anyOf) : part ∈ node.parts := by
  simp [parts, h]

theorem mem_parts_of_properties {p : String × SchemaNode} (hp : p ∈ node.properties.getD []) :
    p.2 ∈ node.parts := by
  simp only [parts, List.mem_append, List.mem_map]
  exact .inl (.inl (.inr ⟨p, hp, rfl⟩))

theorem mem_parts_of_items {item : SchemaNode} (h : node.items = some item) :
    item ∈ node.parts := by
  simp [parts, h]

theorem mem_parts_of_additional {value : SchemaNode} (h : node.additionalSchema = some value) :
    value ∈ node.parts := by
  simp [parts, h]

/-! ## References of a node -/

@[simp] theorem refNamesOfAll_eq (nodes : List SchemaNode) :
    refNamesOfAll nodes = nodes.flatMap refNames := by
  induction nodes with
  | nil => rfl
  | cons node nodes ih => simp [refNamesOfAll, ih]

@[simp] theorem refNamesOfProperties_eq (properties : List (String × SchemaNode)) :
    refNamesOfProperties properties = properties.flatMap (·.2.refNames) := by
  induction properties with
  | nil => rfl
  | cons p properties ih => simp [refNamesOfProperties, ih]

/-- The references of a node are its own and those of its parts. -/
theorem refNames_eq (node : SchemaNode) :
    node.refNames = node.refName.toList ++ node.parts.flatMap refNames := by
  obtain ⟨type, ref, allOf, anyOf, values, properties, items, required, additional,
    description⟩ := node
  cases properties <;> cases items <;> rcases additional with _ | (_ | _) <;>
    simp [refNames, parts, refName, additionalSchema, List.flatMap_map]

theorem mem_refNames_of_part {part : SchemaNode} {name : String} (hp : part ∈ node.parts)
    (h : name ∈ part.refNames) : name ∈ node.refNames := by
  rw [refNames_eq]
  exact List.mem_append_right _ (List.mem_flatMap.2 ⟨part, hp, h⟩)

end SchemaNode

end SwaggerClient
