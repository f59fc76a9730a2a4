import TagDoc.Proofs.Annotations
import TagDoc.ResolvedType

/-!
# Annotations against declared schemas

A declared property is known by the names that lead to it; the levels of
arrays add none.  `ParamSchema.objects` and `ParamSchema.propertyPaths` list
the declared objects and properties of a schema, depth first and parent first,
without any reference to annotations.  A resolved type is made of these lists:
each row holds the first text that the annotations give for the names of its
property, and each property without a text is reported once, in order.
-/

namespace TagDoc

/-- The names joined as detail sections and findings show them. -/
def dotted (names : List String) : String :=
  String.intercalate "." names

namespace ParamSchema

/-- The schema declares a property at the end of the names `keys`; arrays on
the way add no name. -/
inductive Declares : ParamSchema → List String → ParamSchema → Prop where
  | element {keys : List String} {property items : ParamSchema}
      {presence : Presence} :
      Declares items keys property →
      Declares (.array items presence) keys property
  | own {key : String} {property : ParamSchema}
      {properties : List (String × ParamSchema)} {presence : Presence} :
      (key, property) ∈ properties →
      Declares (.object properties presence) [key] property
  | nested {key : String} {keys : List String} {property outer : ParamSchema}
      {properties : List (String × ParamSchema)} {presence : Presence} :
      (key, outer) ∈ properties → Declares outer keys property →
      Declares (.object properties presence) (key :: keys) property

/-- The canonical type of a schema. -/
def canonical : ParamSchema → String
  | .scalar type _ => type
  | .untypedArray _ => "[]any"
  | .array items _ => "[]" ++ items.canonical
  | .untypedObject _ | .object _ _ => "object"

mutual

/-- The objects with declared properties in a schema that the names lead to,
each with its own names. -/
def objects (names : List String) :
    ParamSchema → List (List String × List (String × ParamSchema))
  | .array items _ => objects names items
  | .object properties _ => (names, properties) :: objectsOf names properties
  | .scalar .. | .untypedArray _ | .untypedObject _ => []

/-- List companion of `objects`. -/
def objectsOf (names : List String) :
    List (String × ParamSchema) →
      List (List String × List (String × ParamSchema))
  | [] => []
  | (key, schema) :: rest =>
      objects (names ++ [key]) schema ++ objectsOf names rest

end

mutual

/-- The names of all declared properties in a schema that the names lead to,
each property before those of its own schema. -/
def propertyPaths (names : List String) : ParamSchema → List (List String)
  | .array items _ => propertyPaths names items
  | .object properties _ => propertyPathsOf names properties
  | .scalar .. | .untypedArray _ | .untypedObject _ => []

/-- List companion of `propertyPaths`. -/
def propertyPathsOf (names : List String) :
    List (String × ParamSchema) → List (List String)
  | [] => []
  | (key, schema) :: rest =>
      (names ++ [key]) ::
        (propertyPaths (names ++ [key]) schema ++ propertyPathsOf names rest)

end

theorem mem_objectsOf {names : List String} {key : String}
    {schema : ParamSchema} {properties : List (String × ParamSchema)}
    {object : List String × List (String × ParamSchema)}
    (member : (key, schema) ∈ properties)
    (inside : object ∈ schema.objects (names ++ [key])) :
    object ∈ objectsOf names properties := by
  induction properties with
  | nil => simp at member
  | cons property rest ih =>
      obtain ⟨other, outer⟩ := property
      simp only [objectsOf, List.mem_append]
      rcases List.mem_cons.mp member with same | later
      · cases same
        exact .inl inside
      · exact .inr (ih later)

theorem Declares.mem_objects {keys : List String}
    {property schema : ParamSchema}
    (declared : schema.Declares keys property) (names : List String) :
    ∃ before key properties, keys = before ++ [key] ∧
      (names ++ before, properties) ∈ schema.objects names ∧
      (key, property) ∈ properties := by
  induction declared generalizing names with
  | element _ ih => exact ih names
  | @own key property properties presence member =>
      exact ⟨[], key, properties, rfl, by simp [objects], member⟩
  | @nested key keys property outer properties presence member _ ih =>
      obtain ⟨before, last, inner, split, listed, own⟩ := ih (names ++ [key])
      refine ⟨key :: before, last, inner, by simp [split], ?_, own⟩
      have deeper := mem_objectsOf member listed
      simp only [List.append_assoc, List.singleton_append] at deeper
      exact List.mem_cons_of_mem _ deeper

mutual

theorem exists_declares_of_mem {names path : List String}
    {schema : ParamSchema} (member : path ∈ schema.propertyPaths names) :
    ∃ keys property, schema.Declares keys property ∧ path = names ++ keys := by
  cases schema with
  | scalar type presence => simp [propertyPaths] at member
  | untypedArray presence => simp [propertyPaths] at member
  | array items presence =>
      have inside : path ∈ items.propertyPaths names := member
      obtain ⟨keys, property, declared, leads⟩ := exists_declares_of_mem inside
      exact ⟨keys, property, .element declared, leads⟩
  | untypedObject presence => simp [propertyPaths] at member
  | object properties presence =>
      have inside : path ∈ propertyPathsOf names properties := member
      obtain ⟨key, schema, own, leads⟩ := exists_property_of_mem inside
      rcases leads with rfl | ⟨keys, property, declared, rfl⟩
      · exact ⟨[key], schema, .own own, rfl⟩
      · exact ⟨key :: keys, property, .nested own declared, rfl⟩

theorem exists_property_of_mem {names path : List String}
    {properties : List (String × ParamSchema)}
    (member : path ∈ propertyPathsOf names properties) :
    ∃ key schema, (key, schema) ∈ properties ∧
      (path = names ++ [key] ∨
        ∃ keys property, schema.Declares keys property ∧
          path = names ++ key :: keys) := by
  cases properties with
  | nil => simp [propertyPathsOf] at member
  | cons property rest =>
      obtain ⟨key, schema⟩ := property
      simp only [propertyPathsOf, List.mem_cons, List.mem_append] at member
      rcases member with own | nested | later
      · exact ⟨key, schema, List.mem_cons_self, .inl own⟩
      · obtain ⟨keys, property, declared, leads⟩ :=
          exists_declares_of_mem nested
        rw [List.append_assoc, List.singleton_append] at leads
        exact ⟨key, schema, List.mem_cons_self,
          .inr ⟨keys, property, declared, leads⟩⟩
      · obtain ⟨other, schema, own, leads⟩ := exists_property_of_mem later
        exact ⟨other, schema, List.mem_cons_of_mem _ own, leads⟩

end

theorem cons_subset_propertyPathsOf {names : List String} {key : String}
    {schema : ParamSchema} {properties : List (String × ParamSchema)}
    (member : (key, schema) ∈ properties) :
    (names ++ [key]) :: schema.propertyPaths (names ++ [key]) ⊆
      propertyPathsOf names properties := by
  induction properties with
  | nil => cases member
  | cons property rest ih =>
      obtain ⟨other, outer⟩ := property
      rw [propertyPathsOf]
      rcases List.mem_cons.mp member with same | later
      · cases same
        exact List.cons_subset_cons _ (List.subset_append_left _ _)
      · apply List.Subset.trans (ih later)
        apply List.Subset.trans (List.subset_append_right _ _)
        exact List.subset_cons_self _ _

/-- The listed names are those that lead to a declared property. -/
theorem mem_propertyPaths_iff {names path : List String}
    {schema : ParamSchema} :
    path ∈ schema.propertyPaths names ↔
      ∃ keys property, schema.Declares keys property ∧
        path = names ++ keys := by
  constructor
  · intro listed
    exact exists_declares_of_mem listed
  · intro leads
    obtain ⟨keys, property, declared, rfl⟩ := leads
    induction declared generalizing names with
    | element _ ih => exact ih
    | own member => exact cons_subset_propertyPathsOf member List.mem_cons_self
    | @nested key keys property outer properties presence member _ ih =>
        have inner : names ++ [key] ++ keys ∈
            outer.propertyPaths (names ++ [key]) := ih
        have deeper := cons_subset_propertyPathsOf member
          (List.mem_cons_of_mem _ inner)
        rw [List.append_assoc, List.singleton_append] at deeper
        exact deeper

end ParamSchema

/-- Whether a finding is that of a property without annotation. -/
def Finding.isUndocumentedProperty : Finding → Bool
  | .undocumentedProperty .. => true
  | _ => false

namespace ResolvedType

/-- The text that annotations give for the names of a property. -/
def propertyText (annotations : List (String × String))
    (names : List String) : String :=
  (ParamTree.firstText? names annotations).getD missingPropertyText

/-- The row of a property of the object with the given names. -/
def annotatedRow (annotations : List (String × String)) (names : List String)
    (property : String × ParamSchema) : PropertyRow :=
  ⟨property.1, property.2.canonical,
    propertyText annotations (names ++ [property.1])⟩

/-- The detail section of an object with its names. -/
def annotatedSection (annotations : List (String × String))
    (object : List String × List (String × ParamSchema)) : DetailSection :=
  ⟨dotted object.1, object.2.map (annotatedRow annotations object.1)⟩

/-- The findings of the properties without a text. -/
def missingFindings (unit : String) (annotations : List (String × String))
    (paths : List (List String)) : List Finding :=
  (paths.filter fun names =>
    (ParamTree.firstText? names annotations).isNone).map fun names =>
      .undocumentedProperty (dotted names) unit

theorem dotted_append_singleton {names : List String} (named : names ≠ [])
    (key : String) : dotted (names ++ [key]) = dotted names ++ "." ++ key := by
  rw [dotted, String.intercalate_append_of_ne_nil named (List.cons_ne_nil _ _),
    String.intercalate_singleton, dotted]

section Resolve

variable {annotations : List (String × String)} {tree : ParamTree}

theorem missingFindings_append (unit : String)
    (first second : List (List String)) :
    missingFindings unit annotations (first ++ second) =
      missingFindings unit annotations first ++
        missingFindings unit annotations second := by
  simp [missingFindings]

theorem resolve_ite (unit path key : String) (node : Option ParamNode)
    (schema : ParamSchema) :
    resolve unit (if schema.isCompound then path else key) node schema =
      resolve unit path node schema := by
  cases schema <;> rfl

theorem describe_eq (records : ParamTree.Records annotations tree)
    (unit : String) {names : List String} (named : names ≠ []) :
    describe unit (dotted names) (ParamTree.find? names tree) =
      ⟨propertyText annotations names,
        missingFindings unit annotations [names]⟩ := by
  have held : (ParamTree.find? names tree).bind ParamNode.text? =
      ParamTree.firstText? names annotations := records.text?_eq named
  cases first : ParamTree.firstText? names annotations with
  | none =>
      simp only [describe, held, first, propertyText, missingFindings,
        Option.getD_none]
      simp [first]
  | some text =>
      simp only [describe, held, first, propertyText, missingFindings,
        Option.getD_some]
      simp [first]
      rfl

mutual

theorem value_resolve (records : ParamTree.Records annotations tree)
    (unit : String) {names : List String} (named : names ≠ [])
    (schema : ParamSchema) :
    (resolve unit (dotted names) (ParamTree.find? names tree) schema).value =
      ⟨schema.canonical,
        (schema.objects names).map (annotatedSection annotations)⟩ := by
  cases schema with
  | scalar type presence => rfl
  | untypedArray presence => rfl
  | array items presence =>
      have inner := value_resolve records unit named items
      simp [resolve, inner, arrayOf, ParamSchema.canonical,
        ParamSchema.objects]
  | untypedObject presence => rfl
  | object properties presence =>
      have inner := value_resolveProperties records unit named properties
      simp [resolve, inner, ParamSchema.canonical, ParamSchema.objects,
        annotatedSection]

theorem value_resolveProperties (records : ParamTree.Records annotations tree)
    (unit : String) {names : List String} (named : names ≠ [])
    (properties : List (String × ParamSchema)) :
    (resolveProperties unit (dotted names) (ParamTree.find? names tree)
      properties).value =
      (properties.map (annotatedRow annotations names),
        (ParamSchema.objectsOf names properties).map
          (annotatedSection annotations)) := by
  cases properties with
  | nil => rfl
  | cons property rest =>
      obtain ⟨key, schema⟩ := property
      have longer : names ++ [key] ≠ [] := by simp
      have described := describe_eq records unit longer
      have type := value_resolve records unit longer schema
      have later := value_resolveProperties records unit named rest
      rw [ParamTree.find?_append_singleton named,
        dotted_append_singleton named] at described type
      simp [resolveProperties, resolve_ite, described, type, later,
        annotatedRow, ParamSchema.objectsOf]

end

mutual

theorem findings_resolve (records : ParamTree.Records annotations tree)
    (unit : String) {names : List String} (named : names ≠ [])
    (schema : ParamSchema) :
    (resolve unit (dotted names) (ParamTree.find? names tree)
      schema).findings.filter Finding.isUndocumentedProperty =
      missingFindings unit annotations (schema.propertyPaths names) := by
  cases schema with
  | scalar type presence => rfl
  | untypedArray presence => rfl
  | array items presence =>
      have inner := findings_resolve records unit named items
      simpa [resolve, ParamSchema.propertyPaths] using inner
  | untypedObject presence => rfl
  | object properties presence =>
      have inner := findings_resolveProperties records unit named properties
      simpa [resolve, ParamSchema.propertyPaths] using inner

theorem findings_resolveProperties
    (records : ParamTree.Records annotations tree) (unit : String)
    {names : List String} (named : names ≠ [])
    (properties : List (String × ParamSchema)) :
    (resolveProperties unit (dotted names) (ParamTree.find? names tree)
      properties).findings.filter Finding.isUndocumentedProperty =
      missingFindings unit annotations
        (ParamSchema.propertyPathsOf names properties) := by
  cases properties with
  | nil => rfl
  | cons property rest =>
      obtain ⟨key, schema⟩ := property
      have longer : names ++ [key] ≠ [] := by simp
      have described := describe_eq records unit longer
      have type := findings_resolve records unit longer schema
      have later := findings_resolveProperties records unit named rest
      have own : (missingFindings unit annotations [names ++ [key]]).filter
          Finding.isUndocumentedProperty =
            missingFindings unit annotations [names ++ [key]] := by
        apply List.filter_eq_self.mpr
        intro finding member
        obtain ⟨_, _, rfl⟩ := List.mem_map.mp member
        rfl
      rw [ParamTree.find?_append_singleton named,
        dotted_append_singleton named] at described type
      have split : ParamSchema.propertyPathsOf names ((key, schema) :: rest) =
          [names ++ [key]] ++ (schema.propertyPaths (names ++ [key]) ++
            ParamSchema.propertyPathsOf names rest) := rfl
      rw [split, missingFindings_append, missingFindings_append, ← own, ← type,
        ← later]
      simp [resolveProperties, resolve_ite, described]

end

end Resolve

/-- A declared parameter is resolved against the tree of its annotations: every
detail row holds the first text for the names of its property, and exactly the
declared properties without a text are reported, in order of declaration, each
before its own properties. -/
theorem resolve_annotateAll (annotator unit first : String)
    (annotations : List (String × String)) (schema : ParamSchema) :
    let tree := (ParamTree.annotateAll annotator [] annotations).value
    let resolved := resolve unit first (ParamTree.get? first tree) schema
    resolved.value.details =
        (schema.objects [first]).map (annotatedSection annotations) ∧
      (∀ before key property,
        schema.Declares (before ++ [key]) property →
          ∃ detail ∈ resolved.value.details,
            detail.name = dotted (first :: before) ∧
              ⟨key, property.canonical,
                propertyText annotations (first :: (before ++ [key]))⟩ ∈
                  detail.rows) ∧
      resolved.findings.filter Finding.isUndocumentedProperty =
        missingFindings unit annotations (schema.propertyPaths [first]) ∧
      ∀ names, names ∈ schema.propertyPaths [first] ↔
        ∃ keys property, schema.Declares keys property ∧
          names = first :: keys := by
  intro tree resolved
  have records := ParamTree.records_annotateAll annotator annotations
  have named : [first] ≠ [] := by simp
  have name : dotted [first] = first := String.intercalate_singleton
  have node : ParamTree.get? first tree = ParamTree.find? [first] tree := rfl
  have value := value_resolve records unit named schema
  have findings := findings_resolve records unit named schema
  rw [name, ← node] at value findings
  have details : resolved.value.details =
      (schema.objects [first]).map (annotatedSection annotations) :=
    congrArg ResolvedType.details value
  refine ⟨details, ?_, findings, fun _ => ParamSchema.mem_propertyPaths_iff⟩
  intro before key property declared
  obtain ⟨outer, last, properties, split, listed, own⟩ :=
    declared.mem_objects [first]
  obtain ⟨rfl, same⟩ := List.append_inj' split rfl
  obtain rfl : key = last := by simpa using same
  rw [details]
  refine ⟨annotatedSection annotations ([first] ++ before, properties),
    List.mem_map_of_mem listed, rfl, ?_⟩
  exact List.mem_map.mpr ⟨(key, property), own, rfl⟩

/-- A property two arrays deep finds the text of its path. -/
theorem resolve_annotateAll_sku :
    let line := ParamSchema.object [("sku", .scalar "string" {})] {}
    let order := ParamSchema.array (.object [("lines", .array line {})] {}) {}
    let annotations := [("order[].lines.sku", "code")]
    let tree := (ParamTree.annotateAll "handler" [] annotations).value
    let resolved :=
      resolve "handler" "order" (ParamTree.get? "order" tree) order
    (∃ detail ∈ resolved.value.details, detail.name = "order.lines" ∧
        ⟨"sku", "string", "code"⟩ ∈ detail.rows) ∧
      resolved.findings.filter Finding.isUndocumentedProperty =
        [.undocumentedProperty "order.lines" "handler"] := by
  intro line order annotations tree resolved
  have general := resolve_annotateAll "handler" "handler" "order" annotations
    order
  have declared : order.Declares (["lines"] ++ ["sku"])
      (.scalar "string" {}) :=
    .element (.nested List.mem_cons_self
      (.element (.own List.mem_cons_self)))
  obtain ⟨detail, listed, name, row⟩ := general.2.1 ["lines"] "sku" _ declared
  have text : propertyText annotations ["order", "lines", "sku"] = "code" := by
    decide
  refine ⟨⟨detail, listed, name.trans (by decide), ?_⟩,
    general.2.2.1.trans (by decide)⟩
  rw [← text]
  exact row

end ResolvedType

end TagDoc
