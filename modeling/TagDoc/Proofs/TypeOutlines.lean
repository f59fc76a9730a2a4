import TagDoc.Page.Route
import TagDoc.Proofs.Reconciliation

/-!
# Resolved types without their descriptions

Annotations decide the descriptions in a resolved type and nothing else.  Its
canonical type and its outline, which are the names of its sections and the
names and types of their rows, are those of the declared schema.
-/

namespace TagDoc

/-- What a detail section shows apart from descriptions: its name, and the
names and types of its rows. -/
def DetailSection.outline (detail : DetailSection) :
    String × List (String × String) :=
  (detail.name, detail.rows.map fun row => (row.name, row.type))

/-- The outline of the section of a declared object with its names. -/
def ParamSchema.objectOutline
    (object : List String × List (String × ParamSchema)) :
    String × List (String × String) :=
  (dotted object.1,
    object.2.map fun property => (property.1, property.2.canonical))

namespace ResolvedType

mutual

theorem outline_resolve (unit : String) {names : List String}
    (named : names ≠ []) (node : Option ParamNode) (schema : ParamSchema) :
    (resolve unit (dotted names) node schema).value.canonical =
        schema.canonical ∧
      (resolve unit (dotted names) node schema).value.details.map
          DetailSection.outline =
        (schema.objects names).map ParamSchema.objectOutline := by
  cases schema with
  | scalar type presence => exact ⟨rfl, rfl⟩
  | untypedArray presence => exact ⟨rfl, rfl⟩
  | array items presence =>
      obtain ⟨type, details⟩ := outline_resolve unit named node items
      refine ⟨?_, details⟩
      simp [resolve, arrayOf, type, ParamSchema.canonical]
  | untypedObject presence => exact ⟨rfl, rfl⟩
  | object properties presence =>
      obtain ⟨rows, details⟩ := outline_resolveProperties unit named node
        properties
      refine ⟨rfl, ?_⟩
      simp only [resolve, Diagnosed.value_bind, Diagnosed.value_pure,
        List.map_cons, ParamSchema.objects, details]
      rw [DetailSection.outline, rows, ParamSchema.objectOutline]

theorem outline_resolveProperties (unit : String) {names : List String}
    (named : names ≠ []) (node : Option ParamNode)
    (properties : List (String × ParamSchema)) :
    (resolveProperties unit (dotted names) node properties).value.1.map
          (fun row => (row.name, row.type)) =
        properties.map (fun property =>
          (property.1, property.2.canonical)) ∧
      (resolveProperties unit (dotted names) node properties).value.2.map
          DetailSection.outline =
        (ParamSchema.objectsOf names properties).map
          ParamSchema.objectOutline := by
  cases properties with
  | nil => exact ⟨rfl, rfl⟩
  | cons property rest =>
      obtain ⟨key, schema⟩ := property
      have longer : names ++ [key] ≠ [] := by simp
      obtain ⟨type, details⟩ := outline_resolve unit longer
        (node.bind fun node => ParamTree.get? key node.children) schema
      obtain ⟨rows, nested⟩ := outline_resolveProperties unit named node rest
      rw [dotted_append_singleton named] at type details
      constructor
      · simp [resolveProperties, resolve_ite, type, rows]
      · simp [resolveProperties, resolve_ite, details, nested,
          ParamSchema.objectsOf]

end

end ResolvedType

/-! ## The parameters of a route -/

theorem Assoc.get?_of_mem {α : Type} {entry : String × α} {entries : Assoc α}
    (distinct : (Assoc.keys entries).Nodup) (member : entry ∈ entries) :
    Assoc.get? entry.1 entries = some entry.2 := by
  induction entries with
  | nil => cases member
  | cons first rest ih =>
      obtain ⟨key, value⟩ := first
      obtain ⟨absent, later⟩ := List.nodup_cons.mp distinct
      rcases List.mem_cons.mp member with rfl | deeper
      · simp [Assoc.get?]
      · have different : key ≠ entry.1 := by
          rintro rfl
          exact absent (List.mem_map.mpr ⟨entry, deeper, rfl⟩)
        rw [Assoc.get?, if_neg different, ih later deeper]

/-- The type of a declared parameter under the annotations of its name. -/
def resolvedParam (unit : String) (doc : DocComment)
    (param : String × ParamSchema) : ResolvedType :=
  (ResolvedType.resolve unit param.1 (ParamTree.get? param.1 doc.params)
    param.2).value

theorem value_resolveParams (unit : String) (doc : DocComment)
    (params : Assoc ParamSchema) :
    (resolveParams unit doc params).value =
      params.map fun param => (param.1, resolvedParam unit doc param) := by
  induction params with
  | nil => rfl
  | cons param rest ih =>
      obtain ⟨name, schema⟩ := param
      simp [resolveParams, resolvedParam, ih]

theorem get?_resolveParams (unit : String) (doc : DocComment)
    {params : Assoc ParamSchema} (distinct : (Assoc.keys params).Nodup)
    {param : String × ParamSchema} (member : param ∈ params) :
    Assoc.get? param.1 (resolveParams unit doc params).value =
      some (resolvedParam unit doc param) := by
  rw [value_resolveParams]
  have names : Assoc.keys (params.map fun param =>
      (param.1, resolvedParam unit doc param)) = Assoc.keys params := by
    simp [Assoc.keys]
  have resolved : (param.1, resolvedParam unit doc param) ∈
      params.map fun param => (param.1, resolvedParam unit doc param) :=
    List.mem_map_of_mem member
  exact Assoc.get?_of_mem (names ▸ distinct) resolved

theorem detailSections_resolveParams (unit : String) (doc : DocComment)
    {params : Assoc ParamSchema} (distinct : (Assoc.keys params).Nodup) :
    RoutePage.detailSections (resolveParams unit doc params).value params =
      params.flatMap fun param => (resolvedParam unit doc param).details := by
  refine congrArg List.flatten (List.map_congr_left fun param member => ?_)
  simp [get?_resolveParams unit doc distinct member]

theorem objectsOf_nil (params : Assoc ParamSchema) :
    ParamSchema.objectsOf [] params =
      params.flatMap fun param => param.2.objects [param.1] := by
  induction params with
  | nil => rfl
  | cons param rest ih =>
      obtain ⟨name, schema⟩ := param
      rw [ParamSchema.objectsOf, ih, List.flatMap_cons, List.nil_append]

/-- The outlines of the detail sections of a page are those of all objects that
its parameters declare, whatever the annotations. -/
theorem outline_detailSections (unit : String) (doc : DocComment)
    {params : Assoc ParamSchema} (distinct : (Assoc.keys params).Nodup) :
    (RoutePage.detailSections (resolveParams unit doc params).value params).map
        DetailSection.outline =
      (ParamSchema.objectsOf [] params).map ParamSchema.objectOutline := by
  rw [detailSections_resolveParams unit doc distinct, objectsOf_nil,
    List.map_flatMap, List.map_flatMap]
  refine congrArg List.flatten (List.map_congr_left fun param _ => ?_)
  have outline := ResolvedType.outline_resolve unit
    (List.cons_ne_nil param.1 []) (ParamTree.get? param.1 doc.params) param.2
  have name : dotted [param.1] = param.1 := String.intercalate_singleton
  rw [name] at outline
  exact outline.2

end TagDoc
