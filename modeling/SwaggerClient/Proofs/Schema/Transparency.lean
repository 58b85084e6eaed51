import SwaggerClient.Proofs.Schema.Lowering
import SwaggerClient.Schema.Text

/-!
# References are transparent

A reference stands for the definition that it gives.  Behind the reference the definition is in
progress and by itself it is not, so the two are lowered differently where the definition is met
again.  When nothing that it leads to comes back to it, they have the same type and declare the
same definitions, whatever other definitions lead back to themselves.
-/

namespace SwaggerClient

open Relation

namespace Definitions

variable {definitions : Definitions} {declared : Declarations} {definition : String}
  {node ref : SchemaNode}

/-- The type of a node is its expansion with the targets named, and the declarations after it
are those for the targets. -/
theorem lower_eq (h : declared.Sound definitions) (node : Option SchemaNode) :
    definitions.lower node declared =
      ((definitions.expandOptional node).mapReferences
          (declared.declareTargets (definitions.expandOptional node).references).nameOf,
        declared.declareTargets (definitions.expandOptional node).references) := by
  have hsound : Lowering.Sound definitions { declared } :=
    ⟨List.nodup_nil, List.nil_subset _, h⟩
  obtain ⟨type, l, hrun, -, hl, htype⟩ :=
    lowersTo_lowerOptional (Lowering.invariant_sound definitions) node { declared } hsound rfl
  rw [lowering_self] at hl htype
  have htype := htype l.declared List.prefix_rfl
  subst hl
  simp [lower, hrun, htype]

/-- A reference has the expansion of its definition, unless that leads back to itself. -/
theorem expandNode_reference (hnode : definitions.get? definition = some node)
    (href : ref.refName = some definition)
    (hback : ¬ TransGen definitions.Consults definition definition) :
    definitions.expandNode [] ref = definitions.expandNode [] node := by
  obtain ⟨rest, hlength, hrest⟩ := (Room.nil definitions).enter hnode List.not_mem_nil
  rw [expandNode, SchemaNode.expand_of_refName _ href, hlength,
    follow_succ _ _ hnode List.not_mem_nil]
  refine SchemaNode.expand_congr fun name hname => ?_
  refine follow_congr hrest (.nil definitions) fun other hother => ⟨rfl, ?_⟩
  -- The definition in progress is none of those that it leads to.
  have hne : other ≠ definition := by
    rintro rfl
    exact hback (TransGen.head' ⟨node, hnode, hname⟩ hother)
  simp [hne]

/-- To lower a reference is to lower its definition, unless that leads back to itself: the types
are the same and so are the declarations afterwards. -/
theorem lower_reference (hnode : definitions.get? definition = some node)
    (href : ref.refName = some definition)
    (hback : ¬ TransGen definitions.Consults definition definition)
    (h : declared.Sound definitions) :
    definitions.lower (some ref) declared = definitions.lower (some node) declared := by
  have hexpand : definitions.expandOptional (some ref) = definitions.expandOptional (some node) :=
    expandNode_reference hnode href hback
  rw [lower_eq h, lower_eq h, hexpand]

/-- The text of a reference is the text of its definition, unless that leads back to itself. -/
theorem entryText_reference (hnode : definitions.get? definition = some node)
    (href : ref.refName = some definition)
    (hback : ¬ TransGen definitions.Consults definition definition) (key description : String) :
    definitions.entryText key (some ref) description =
      definitions.entryText key (some node) description := by
  rw [entryText, entryText, lower_reference hnode href hback .nil]

/-- A page holds a menu, and a menu holds menus. -/
def menuDefinitions : Definitions :=
  let menu : SchemaNode := { ref := some "#/definitions/Menu" }
  [("Page", { properties := some [("menu", menu)] }),
    ("Menu", { properties := some [("items", { items := some menu })] })]

theorem eq_menu_of_consults {definition name : String}
    (h : menuDefinitions.Consults definition name) : name = "Menu" := by
  obtain ⟨node, hnode, h⟩ := h
  have hnode := Dictionary.mem_of_get? hnode
  have hnames : ∀ entry ∈ menuDefinitions, entry.2.refNames = ["Menu"] := by decide
  exact List.mem_singleton.1 (hnames _ hnode ▸ h.mem_refNames)

/-- A page and a reference to it have the same text, though the menu in the page leads back to
itself. -/
theorem entryText_reference_page :
    menuDefinitions.Consults "Menu" "Menu" ∧
      ¬ TransGen menuDefinitions.Consults "Page" "Page" ∧
      menuDefinitions.entryText "page" (some { ref := some "#/definitions/Page" }) "shown" =
        menuDefinitions.entryText "page" (menuDefinitions.get? "Page") "shown" := by
  have hmenu : menuDefinitions.Consults "Menu" "Menu" :=
    ⟨_, rfl, .property rfl (by decide) List.mem_cons_self
      (.item rfl (by decide) rfl (.reference rfl))⟩
  have hback : ¬ TransGen menuDefinitions.Consults "Page" "Page" := fun h => by
    obtain ⟨_, -, h⟩ := TransGen.tail'_iff.1 h
    exact absurd (eq_menu_of_consults h) (by decide)
  exact ⟨hmenu, hback, entryText_reference rfl rfl hback "page" "shown"⟩

end Definitions

end SwaggerClient
