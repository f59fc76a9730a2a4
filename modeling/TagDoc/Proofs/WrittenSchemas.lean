import TagDoc.Proofs.Declarations

/-!
# Schemas written down

A schema may be written as a descriptor, or as the name of its type where
nothing else is declared, at every depth.  What is written for a schema in
normal form is read as the schema: `decoder_declarations`.
-/

namespace TagDoc

open Json (Gives)

namespace ParamSchema

/-! ## Values that a schema is written as -/

/-- The values that say what is declared; nothing is said by no value or by
`null`. -/
inductive Tells : Option Json → List Json → Prop where
  | declared (value : Json) : Tells (some value) [value]
  | silent : Tells none []
  | null : Tells none [.null]

/-- The values that say whether a parameter may be left out; it may not where
nothing is said. -/
inductive Marks : Bool → List Json → Prop where
  | marked (optional : Bool) : Marks optional [.bool optional]
  | unmarked : Marks false []

/-- The members of a descriptor, in any order.  Members that descriptors do not
know may stand among them. -/
structure Describes (type : String) (items properties : Option Json)
    (presence : Presence) (members : List (String × Json)) : Prop where
  type : Json.valuesOf "type" members = [.string type]
  items : Tells items (Json.valuesOf "items" members)
  properties : Tells properties (Json.valuesOf "properties" members)
  optional : Marks presence.optional (Json.valuesOf "optional" members)
  default : Tells presence.default (Json.valuesOf "default" members)

mutual

/-- The values that a schema may be written as: a descriptor, or the name of
its type where nothing else is declared, at every depth. -/
inductive WrittenAs : ParamSchema → Json → Prop where
  | scalarName (type : String) : WrittenAs (.scalar type {}) (.string type)
  | arrayName : WrittenAs (.untypedArray {}) (.string "array")
  | objectName : WrittenAs (.untypedObject {}) (.string "object")
  | scalar {type : String} {presence : Presence}
      {members : List (String × Json)}
      (described : Describes type none none presence members) :
      WrittenAs (.scalar type presence) (.object members)
  | untypedArray {presence : Presence} {members : List (String × Json)}
      (described : Describes "array" none none presence members) :
      WrittenAs (.untypedArray presence) (.object members)
  | array {items : ParamSchema} {value : Json} {presence : Presence}
      {members : List (String × Json)} (inside : WrittenAs items value)
      (described : Describes "array" (some value) none presence members) :
      WrittenAs (.array items presence) (.object members)
  | untypedObject {presence : Presence} {members : List (String × Json)}
      (described : Describes "object" none none presence members) :
      WrittenAs (.untypedObject presence) (.object members)
  | object {properties : List (String × ParamSchema)}
      {entries : List (String × Json)} {presence : Presence}
      {members : List (String × Json)}
      (inside : AllWrittenAs properties entries)
      (described :
        Describes "object" none (some (.object entries)) presence members) :
      WrittenAs (.object properties presence) (.object members)

/-- The entries that properties may be written as, in the same order. -/
inductive AllWrittenAs :
    List (String × ParamSchema) → List (String × Json) → Prop where
  | nil : AllWrittenAs [] []
  | cons {name : String} {schema : ParamSchema} {value : Json}
      {properties : List (String × ParamSchema)}
      {entries : List (String × Json)} (first : WrittenAs schema value)
      (rest : AllWrittenAs properties entries) :
      AllWrittenAs ((name, schema) :: properties) ((name, value) :: entries)

end

/-! ## Reading what is written -/

section Reading

variable {members : List (String × Json)} {name : String}

theorem Tells.exists_gives {α : Type} {read : Json → Option α}
    {said : Option Json} {content : Option α}
    (tells : Tells said (Json.valuesOf name members))
    (reads : Option.Rel
      (fun value inner => value ≠ .null ∧ read value = some inner) said
      content) :
    ∃ given, Gives (fun value => orNull value (read value)) name members given ∧
      given.getD none = content := by
  generalize values : Json.valuesOf name members = found at tells
  cases tells with
  | declared value =>
      cases reads with
      | @some _ inner reads =>
          refine ⟨some (some inner), ?_, rfl⟩
          simp [Gives, values, orNull_of_ne reads.1, reads.2]
  | silent =>
      cases reads
      exact ⟨none, by simp [Gives, values], rfl⟩
  | null =>
      cases reads
      exact ⟨some none, by simp [Gives, values, orNull], rfl⟩

theorem Marks.exists_gives {optional : Bool}
    (marks : Marks optional (Json.valuesOf name members)) :
    ∃ given, Gives flag? name members given ∧
      given.getD false = optional := by
  generalize values : Json.valuesOf name members = found at marks
  cases marks with
  | marked => exact ⟨some optional, by simp [Gives, values, flag?], rfl⟩
  | unmarked => exact ⟨none, by simp [Gives, values], rfl⟩

end Reading

/-- A descriptor is read as what its members say. -/
theorem ofJson?_of_describes {type : String} {items properties : Option Json}
    {presence : Presence} {members : List (String × Json)}
    {inner : Option ParamSchema} {declared : Option (Assoc ParamSchema)}
    (described : Describes type items properties presence members)
    (own : presence.Normal)
    (itemsRead : Option.Rel
      (fun value schema => ofJson? value = some schema) items inner)
    (propertiesRead : Option.Rel
      (fun value schemas => propertiesOf? value = some schemas) properties
      declared) :
    ofJson? (.object members) = some (ofType type inner declared presence) := by
  have givesType : Gives text? "type" members (some type) := by
    simp [Gives, described.type, text?]
  have itemsTold : Option.Rel
      (fun value schema => value ≠ .null ∧ ofJson? value = some schema) items
      inner := by
    cases itemsRead with
    | none => exact .none
    | some read =>
        refine .some ⟨?_, read⟩
        rintro rfl
        cases read
  have propertiesTold : Option.Rel
      (fun value schemas => value ≠ .null ∧ propertiesOf? value = some schemas)
      properties declared := by
    cases propertiesRead with
    | none => exact .none
    | some read =>
        refine .some ⟨?_, read⟩
        rintro rfl
        cases read
  have defaultTold : Option.Rel
      (fun value kept => value ≠ .null ∧ some value.merged = some kept)
      presence.default presence.default := by
    cases held : presence.default with
    | none => exact .none
    | some value =>
        obtain ⟨given, whole⟩ := own value held
        exact .some ⟨given, congrArg some whole⟩
  obtain ⟨givenItems, givesItems, rfl⟩ := described.items.exists_gives itemsTold
  obtain ⟨givenProperties, givesProperties, rfl⟩ :=
    described.properties.exists_gives propertiesTold
  obtain ⟨givenOptional, givesOptional, optional⟩ :=
    described.optional.exists_gives
  obtain ⟨givenDefault, givesDefault, default⟩ :=
    described.default.exists_gives defaultTold
  simp only [← some_default?] at givesDefault
  refine ofJson?_object.mpr
    ⟨⟨some type, givenItems, givenProperties, givenOptional, givenDefault⟩,
      ⟨givesType, givesItems, givesProperties, givesOptional, givesDefault⟩, ?_⟩
  simp only [Descriptor.schema?, Option.map_some, optional, default]

mutual

/-- A schema in normal form is read from everything it may be written as. -/
theorem ofJson?_of_writtenAs {schema : ParamSchema} {value : Json}
    (normal : schema.Normal) (named : schema.WellNamed)
    (written : WrittenAs schema value) : ofJson? value = some schema := by
  cases written with
  | scalarName type =>
      cases normal with
      | scalar array object _ =>
          rw [ofJson?, ofType, if_neg array, if_neg object]
  | arrayName => rfl
  | objectName => rfl
  | scalar described =>
      cases normal with
      | scalar array object own =>
          rw [ofJson?_of_describes described own .none .none, ofType,
            if_neg array, if_neg object]
  | untypedArray described =>
      cases normal with
      | untypedArray own =>
          exact ofJson?_of_describes described own .none .none
  | array inside described =>
      cases normal with
      | array items own =>
          cases named with
          | array itemsNamed =>
              have read := ofJson?_of_writtenAs items itemsNamed inside
              exact ofJson?_of_describes described own (.some read) .none
  | untypedObject described =>
      cases normal with
      | untypedObject own =>
          exact ofJson?_of_describes described own .none .none
  | @object properties entries _ _ inside described =>
      cases normal with
      | object propertiesNormal own =>
          cases named with
          | object distinct propertiesNamed =>
              have each := schemasOf?_of_allWrittenAs propertiesNormal
                propertiesNamed inside
              have read : propertiesOf? (.object entries) = some properties :=
                propertiesOf?_eq_some.mpr ⟨entries, properties, rfl, each,
                  (Assoc.ofList_of_nodup distinct).symm⟩
              exact ofJson?_of_describes described own .none (.some read)

theorem schemasOf?_of_allWrittenAs {properties : List (String × ParamSchema)}
    {entries : List (String × Json)}
    (normal : ∀ property ∈ properties, property.2.Normal)
    (named : ∀ property ∈ properties, property.2.WellNamed)
    (written : AllWrittenAs properties entries) :
    schemasOf? entries = some properties := by
  cases written with
  | nil => rfl
  | cons first rest =>
      obtain ⟨firstNormal, restNormal⟩ := List.forall_mem_cons.mp normal
      obtain ⟨firstNamed, restNamed⟩ := List.forall_mem_cons.mp named
      have here := ofJson?_of_writtenAs firstNormal firstNamed first
      have later := schemasOf?_of_allWrittenAs restNormal restNamed rest
      rw [schemasOf?, here, later]
      rfl

end

/-! ## A way to write every schema -/

/-- A descriptor with all members that have something to tell. -/
def descriptorOf (type : String) (items properties : Option Json)
    (presence : Presence) : Json :=
  .object
    ([("type", .string type)] ++ items.toList.map (("items", ·)) ++
      properties.toList.map (("properties", ·)) ++
      [("optional", .bool presence.optional)] ++
      presence.default.toList.map (("default", ·)))

mutual

/-- A schema written with descriptors at all depths. -/
def toJson : ParamSchema → Json
  | .scalar type presence => descriptorOf type none none presence
  | .untypedArray presence => descriptorOf "array" none none presence
  | .array items presence =>
      descriptorOf "array" (some items.toJson) none presence
  | .untypedObject presence => descriptorOf "object" none none presence
  | .object properties presence =>
      descriptorOf "object" none (some (.object (entriesOf properties))) presence

def entriesOf : List (String × ParamSchema) → List (String × Json)
  | [] => []
  | (name, schema) :: rest => (name, schema.toJson) :: entriesOf rest

end

theorem describes_descriptorOf (type : String) (items properties : Option Json)
    (presence : Presence) :
    ∃ members, descriptorOf type items properties presence = .object members ∧
      Describes type items properties presence members := by
  have tells (told : Option Json) : Tells told told.toList := by
    cases told with
    | none => exact .silent
    | some value => exact .declared value
  refine ⟨_, rfl, ?_, ?_, ?_, ?_, ?_⟩
  · simp [Json.valuesOf, List.filter_map, Function.comp_def]
  · simpa [Json.valuesOf, List.filter_map, Function.comp_def] using tells items
  · simpa [Json.valuesOf, List.filter_map, Function.comp_def] using
      tells properties
  · simpa [Json.valuesOf, List.filter_map, Function.comp_def] using
      Marks.marked presence.optional
  · simpa [Json.valuesOf, List.filter_map, Function.comp_def] using
      tells presence.default

mutual

theorem writtenAs_toJson (schema : ParamSchema) :
    WrittenAs schema schema.toJson := by
  cases schema with
  | scalar type presence =>
      obtain ⟨members, same, described⟩ :=
        describes_descriptorOf type none none presence
      rw [toJson, same]
      exact .scalar described
  | untypedArray presence =>
      obtain ⟨members, same, described⟩ :=
        describes_descriptorOf "array" none none presence
      rw [toJson, same]
      exact .untypedArray described
  | array items presence =>
      obtain ⟨members, same, described⟩ :=
        describes_descriptorOf "array" (some items.toJson) none presence
      rw [toJson, same]
      exact .array (writtenAs_toJson items) described
  | untypedObject presence =>
      obtain ⟨members, same, described⟩ :=
        describes_descriptorOf "object" none none presence
      rw [toJson, same]
      exact .untypedObject described
  | object properties presence =>
      obtain ⟨members, same, described⟩ := describes_descriptorOf "object" none
        (some (.object (entriesOf properties))) presence
      rw [toJson, same]
      exact .object (allWrittenAs_entriesOf properties) described

theorem allWrittenAs_entriesOf (properties : List (String × ParamSchema)) :
    AllWrittenAs properties (entriesOf properties) := by
  cases properties with
  | nil => exact .nil
  | cons property rest =>
      obtain ⟨name, schema⟩ := property
      exact .cons (writtenAs_toJson schema) (allWrittenAs_entriesOf rest)

end

/-! ## Decoding -/

theorem decoder_of_read {draft : Json.Draft} {value : Json}
    (reads : draft.read = .ok value) :
    decoder draft = (ofJson? value).elim (.error .mismatch) .ok := by
  rw [decoder, Json.Decoder.whole, reads]
  rfl

theorem decoder_eq_ok {value : Json} {schema : ParamSchema} :
    decoder value.draft = .ok schema ↔ ofJson? value = some schema := by
  rw [decoder_of_read (Json.read_draft value)]
  cases ofJson? value with
  | none => simp
  | some other => simp

/-- A value is decoded exactly if it declares a schema, and is a mismatch
otherwise; a text that reads as the value is decoded alike.  A decoded schema is
in normal form and has every property once, and each such schema is decoded from
all values that it may be written as, of which there is one for every schema. -/
theorem decoder_declarations (value : Json) :
    ((∃ schema, decoder value.draft = .ok schema) ↔ Declaration value) ∧
      (¬ Declaration value → decoder value.draft = .error .mismatch) ∧
      (∀ draft : Json.Draft, draft.read = .ok value →
        decoder draft = decoder value.draft) ∧
      (∀ schema, decoder value.draft = .ok schema →
        schema.Normal ∧ schema.WellNamed) ∧
      (∀ schema : ParamSchema, schema.Normal → schema.WellNamed →
        WrittenAs schema value → decoder value.draft = .ok schema) ∧
      ∀ schema : ParamSchema, WrittenAs schema schema.toJson := by
  refine ⟨?_, ?_, ?_, ?_, ?_, writtenAs_toJson⟩
  · simp only [decoder_eq_ok, ← Option.isSome_iff_exists, isSome_ofJson?_iff]
  · intro foreign
    have refused : ofJson? value = none := by
      rw [← Option.not_isSome_iff_eq_none, isSome_ofJson?_iff]
      exact foreign
    rw [decoder_of_read (Json.read_draft value), refused]
    rfl
  · intro draft reads
    rw [decoder_of_read reads, decoder_of_read (Json.read_draft value)]
  · intro schema decoded
    have read := decoder_eq_ok.mp decoded
    have declares : Declaration value := by
      rw [← isSome_ofJson?_iff, read]
      rfl
    exact ⟨normal_of_ofJson? declares read, wellNamed_of_ofJson? read⟩
  · intro schema normal named written
    exact decoder_eq_ok.mpr (ofJson?_of_writtenAs normal named written)

/-- Members in another order, a bare name beside descriptors, and a default that
is `null`. -/
theorem decoder_declarations_items :
    let one : Json := .number (.integer 1)
    let schema : ParamSchema :=
      .array (.object [("id", .scalar "string" {}),
        ("qty", .scalar "int" { default := some one })] {}) { optional := true }
    let quantity : Json := .object [("default", one), ("type", .string "int")]
    let order : Json := .object [("default", .null), ("type", .string "object"),
      ("properties", .object [("id", .string "string"), ("qty", quantity)])]
    let value : Json := .object [("optional", .bool true), ("items", order),
      ("type", .string "array")]
    schema.Normal ∧ schema.WellNamed ∧ WrittenAs schema value ∧
      decoder value.draft = .ok schema := by
  intro one schema quantity order value
  have own : Presence.Normal { default := some one } := by
    rintro _ ⟨rfl⟩
    exact ⟨nofun, rfl⟩
  have normal : schema.Normal := by
    refine .array (.object ?_ nofun) nofun
    simp only [List.forall_mem_cons]
    exact ⟨.scalar (by decide) (by decide) nofun,
      .scalar (by decide) (by decide) own, List.forall_mem_nil _⟩
  have named : schema.WellNamed := by
    refine .array (.object (by decide) ?_)
    simp only [List.forall_mem_cons]
    exact ⟨.scalar, .scalar, List.forall_mem_nil _⟩
  have written : WrittenAs schema value := by
    have quantityWritten : WrittenAs (.scalar "int" { default := some one })
        quantity :=
      .scalar ⟨rfl, .silent, .silent, .unmarked, .declared one⟩
    have orderWritten : WrittenAs (.object [("id", .scalar "string" {}),
        ("qty", .scalar "int" { default := some one })] {}) order :=
      .object (.cons (.scalarName "string") (.cons quantityWritten .nil))
        ⟨rfl, .silent, .declared _, .unmarked, .null⟩
    exact .array orderWritten
      ⟨rfl, .declared order, .silent, .marked true, .silent⟩
  exact ⟨normal, named, written,
    (decoder_declarations value).2.2.2.2.1 schema normal named written⟩

end ParamSchema

end TagDoc
