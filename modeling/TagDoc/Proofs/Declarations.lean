import TagDoc.Proofs.DescriptorMembers

/-!
# Declarations of schemas

A JSON value declares a schema if it is the name of a type, or a descriptor
whose known members are well formed, at every depth and also where the type
makes no use of them.  Exactly these values are read, and the schema that is
read is in normal form.
-/

namespace TagDoc

open Json (Gives)

namespace ParamSchema

/-! ## Values that declare a schema -/

/-- A value declares a schema if it is the name of a type, or a descriptor that
gives each known member at most once: a type by its name, items and properties
that declare schemas themselves or are `null`, and a flag.  A default may be any
value. -/
inductive Declaration : Json → Prop where
  | name (type : String) : Declaration (.string type)
  | descriptor {members : List (String × Json)}
      (once : ∀ name ∈ descriptorNames, (Assoc.keys members).count name ≤ 1)
      (typed : ∃ type, ("type", .string type) ∈ members)
      (items : ∀ value, ("items", value) ∈ members → value ≠ .null →
        Declaration value)
      (grouped : ∀ value, ("properties", value) ∈ members → value ≠ .null →
        ∃ properties, value = .object properties)
      (properties : ∀ properties, ("properties", .object properties) ∈ members →
        ∀ property ∈ properties, Declaration property.2)
      (marked : ∀ value, ("optional", value) ∈ members →
        ∃ optional, value = .bool optional) :
      Declaration (.object members)

theorem orNull_of_ne {α : Type} {value : Json} (declared : value ≠ .null)
    (read : Option α) : orNull value read = read.map some := by
  cases value with
  | null => exact (declared rfl).elim
  | bool value => rfl
  | number value => rfl
  | string text => rfl
  | array items => rfl
  | object members => rfl

theorem isSome_orNull {α : Type} {value : Json} {read : Option α}
    (readable : value ≠ .null → read.isSome) : (orNull value read).isSome := by
  by_cases null : value = .null
  · subst null
    rfl
  · rw [orNull_of_ne null, Option.isSome_map]
    exact readable null

theorem Descriptor.readable_of_gives {α : Type} {read : Json → Option α}
    {name : String} {members : List (String × Json)} {given : Option (Option α)}
    (gives : Gives (fun value => orNull value (read value)) name members given)
    {value : Json} (there : (name, value) ∈ members)
    (declared : value ≠ .null) : ∃ content, read value = some content := by
  obtain ⟨content, _, accepted⟩ := gives.reads there
  rw [orNull_of_ne declared] at accepted
  obtain ⟨inner, found, _⟩ := Option.map_eq_some_iff.mp accepted
  exact ⟨inner, found⟩

theorem propertiesOf?_eq_some {value : Json} {declared : Assoc ParamSchema} :
    propertiesOf? value = some declared ↔
      ∃ members schemas, value = .object members ∧
        schemasOf? members = some schemas ∧
        declared = Assoc.ofList schemas := by
  constructor
  · intro read
    cases value with
    | object members =>
        obtain ⟨schemas, found, rfl⟩ := Option.map_eq_some_iff.mp read
        exact ⟨members, schemas, rfl, found, rfl⟩
    | null => cases read
    | bool value => cases read
    | number value => cases read
    | string text => cases read
    | array items => cases read
  · rintro ⟨members, schemas, rfl, found, rfl⟩
    rw [propertiesOf?, found]
    rfl

/-- Every value that is read declares a schema.  The second part carries the
induction to the properties, which lie two levels below a descriptor. -/
theorem declaration_of_ofJson? (value : Json) :
    ((ofJson? value).isSome → Declaration value) ∧
      ∀ members, value = .object members →
        (∀ member ∈ members, (ofJson? member.2).isSome) →
        ∀ member ∈ members, Declaration member.2 := by
  induction value using Json.parts_induction with
  | null | bool | number | array =>
      constructor
      · intro read
        cases read
      · intro members same
        cases same
  | string text =>
      constructor
      · intro _
        exact .name text
      · intro members same
        cases same
  | object members ih =>
      constructor
      · intro read
        obtain ⟨schema, found⟩ := Option.isSome_iff_exists.mp read
        obtain ⟨descriptor, gathers, typed⟩ := ofJson?_object.mp found
        apply Declaration.descriptor
        · simp only [descriptorNames, List.forall_mem_cons]
          exact ⟨gathers.type.once, gathers.items.once,
            gathers.properties.once, gathers.optional.once,
            gathers.default.once, List.forall_mem_nil _⟩
        · obtain ⟨type, given, _⟩ := Option.map_eq_some_iff.mp typed
          have gives := gathers.type
          rw [given] at gives
          obtain ⟨value, there, reads⟩ := gives.exists_member
          cases value with
          | string text => exact ⟨text, there⟩
          | _ => cases reads
        · intro value there declared
          obtain ⟨inner, found⟩ :=
            Descriptor.readable_of_gives gathers.items there declared
          exact (ih _ there).1 (Option.isSome_iff_exists.mpr ⟨inner, found⟩)
        · intro value there declared
          obtain ⟨inner, found⟩ :=
            Descriptor.readable_of_gives gathers.properties there declared
          obtain ⟨properties, _, same, _⟩ := propertiesOf?_eq_some.mp found
          exact ⟨properties, same⟩
        · intro properties there
          have declared : Json.object properties ≠ .null := by
            intro same
            cases same
          obtain ⟨inner, found⟩ :=
            Descriptor.readable_of_gives gathers.properties there declared
          obtain ⟨_, schemas, same, read, _⟩ := propertiesOf?_eq_some.mp found
          cases same
          exact (ih _ there).2 properties rfl (members_of_schemasOf? read).1
        · intro value there
          obtain ⟨_, _, reads⟩ := gathers.optional.reads there
          cases value with
          | bool optional => exact ⟨optional, rfl⟩
          | _ => cases reads
      · intro others same readable member there
        cases same
        exact (ih member there).1 (readable member there)

theorem isSome_of_declaration {value : Json} (declares : Declaration value) :
    (ofJson? value).isSome := by
  induction declares with
  | name type => rfl
  | @descriptor members once typed items grouped properties marked itemsRead
      propertiesRead =>
      simp only [descriptorNames, List.forall_mem_cons] at once
      obtain ⟨onceType, onceItems, onceProperties, onceOptional, onceDefault,
        _⟩ := once
      obtain ⟨name, named⟩ := typed
      obtain ⟨type, givesType⟩ : ∃ given, Gives text? "type" members given := by
        apply Json.exists_gives onceType
        intro value there
        rw [← Json.eq_of_once onceType named there]
        rfl
      obtain ⟨items, givesItems⟩ := Json.exists_gives onceItems
        fun value there => isSome_orNull (itemsRead value there)
      obtain ⟨properties, givesProperties⟩ : ∃ given,
          Gives (fun value => orNull value (propertiesOf? value)) "properties"
            members given := by
        apply Json.exists_gives onceProperties
        intro value there
        apply isSome_orNull
        intro declared
        obtain ⟨inner, rfl⟩ := grouped value there declared
        obtain ⟨schemas, found⟩ := Option.isSome_iff_exists.mp
          (isSome_schemasOf? (propertiesRead inner there))
        exact Option.isSome_iff_exists.mpr
          ⟨_, propertiesOf?_eq_some.mpr ⟨inner, schemas, rfl, found, rfl⟩⟩
      obtain ⟨optional, givesOptional⟩ : ∃ given,
          Gives flag? "optional" members given := by
        apply Json.exists_gives onceOptional
        intro value there
        obtain ⟨flag, rfl⟩ := marked value there
        rfl
      obtain ⟨default, givesDefault⟩ : ∃ given,
          Gives (fun value => some (default? value)) "default" members given :=
        Json.exists_gives onceDefault fun _ _ => rfl
      obtain ⟨text, given, _⟩ := givesType.reads named
      let descriptor : Descriptor :=
        ⟨type, items, properties, optional, default⟩
      have gathers : descriptor.Gathers members :=
        ⟨givesType, givesItems, givesProperties, givesOptional, givesDefault⟩
      have typed : descriptor.schema?.isSome := by
        simp [Descriptor.schema?, descriptor, given]
      obtain ⟨schema, made⟩ := Option.isSome_iff_exists.mp typed
      exact Option.isSome_iff_exists.mpr
        ⟨schema, ofJson?_object.mpr ⟨descriptor, gathers, made⟩⟩

theorem isSome_ofJson?_iff {value : Json} :
    (ofJson? value).isSome ↔ Declaration value :=
  ⟨(declaration_of_ofJson? value).1, isSome_of_declaration⟩

/-! ## Schemas in normal form -/

end ParamSchema

/-- A default is a value other than `null` that stands for itself. -/
def Presence.Normal (presence : Presence) : Prop :=
  ∀ value, presence.default = some value →
    value ≠ .null ∧ value.merged = value

namespace ParamSchema

/-- A schema in which, at every depth, no scalar has the name of another kind of
type and no default is `null`. -/
inductive Normal : ParamSchema → Prop where
  | scalar {type : String} {presence : Presence} (array : type ≠ "array")
      (object : type ≠ "object") (own : presence.Normal) :
      Normal (.scalar type presence)
  | untypedArray {presence : Presence} (own : presence.Normal) :
      Normal (.untypedArray presence)
  | array {items : ParamSchema} {presence : Presence} (inside : Normal items)
      (own : presence.Normal) : Normal (.array items presence)
  | untypedObject {presence : Presence} (own : presence.Normal) :
      Normal (.untypedObject presence)
  | object {properties : List (String × ParamSchema)} {presence : Presence}
      (inside : ∀ property ∈ properties, Normal property.2)
      (own : presence.Normal) : Normal (.object properties presence)

theorem normal_ofType {type : String} {items : Option ParamSchema}
    {properties : Option (Assoc ParamSchema)} {presence : Presence}
    (inside : ∀ schema, items = some schema → schema.Normal)
    (below : ∀ declared, properties = some declared →
      ∀ property ∈ declared, property.2.Normal)
    (own : presence.Normal) :
    (ofType type items properties presence).Normal := by
  unfold ofType
  split
  · cases items with
    | none => exact .untypedArray own
    | some schema => exact .array (inside schema rfl) own
  · next notArray =>
      split
      · cases properties with
        | none => exact .untypedObject own
        | some declared => exact .object (below declared rfl) own
      · next notObject => exact .scalar notArray notObject own

theorem Descriptor.exists_content {α : Type} {read : Json → Option α}
    {name : String} {members : List (String × Json)}
    {given : Option (Option α)} {content : α}
    (gives : Gives (fun value => orNull value (read value)) name members given)
    (held : given.getD none = some content) :
    ∃ value, (name, value) ∈ members ∧ value ≠ .null ∧
      read value = some content := by
  cases given with
  | none => cases held
  | some inner =>
      obtain ⟨value, there, accepted⟩ := gives.exists_member
      obtain rfl : inner = some content := held
      have declared : value ≠ .null := by
        rintro rfl
        cases accepted
      exact ⟨value, there, declared, orNull_eq_some accepted⟩

theorem some_default? (value : Json) :
    some (default? value) = orNull value (some value.merged) := by
  cases value with
  | _ => rfl

theorem normal_of_ofJson? {value : Json} {schema : ParamSchema}
    (declares : Declaration value) (read : ofJson? value = some schema) :
    schema.Normal := by
  induction declares generalizing schema with
  | name type =>
      cases read
      apply normal_ofType
      · intro inner held
        cases held
      · intro inner held
        cases held
      · intro default held
        cases held
  | @descriptor members _ _ _ _ _ _ itemsNormal propertiesNormal =>
      obtain ⟨descriptor, gathers, typed⟩ := ofJson?_object.mp read
      obtain ⟨type, _, rfl⟩ := Option.map_eq_some_iff.mp typed
      apply normal_ofType
      · intro inner held
        obtain ⟨value, there, declared, found⟩ :=
          Descriptor.exists_content gathers.items held
        exact itemsNormal value there declared found
      · intro inner held property declared
        obtain ⟨value, there, _, found⟩ :=
          Descriptor.exists_content gathers.properties held
        obtain ⟨properties, schemas, rfl, each, rfl⟩ :=
          propertiesOf?_eq_some.mp found
        obtain ⟨member, known, same⟩ :=
          (members_of_schemasOf? each).2 property (Assoc.mem_ofList declared)
        exact propertiesNormal properties there member known same
      · intro default held
        have gives : Gives (fun value => orNull value (some value.merged))
            "default" members descriptor.default := by
          simpa only [some_default?] using gathers.default
        obtain ⟨value, _, declared, found⟩ :=
          Descriptor.exists_content gives held
        cases found
        exact ⟨Json.merged_ne_null declared, Json.merged_merged value⟩

end ParamSchema

end TagDoc
