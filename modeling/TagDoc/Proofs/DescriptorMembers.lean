import TagDoc.Proofs.JsonValues

/-!
# The members of descriptors

A descriptor is gathered from members in any order: under each name that it
knows there is one value, which can be read, or none, and other members do not
count.  `ParamSchema.ofJson?_object` is the form that later lemmas use.
-/

namespace TagDoc

/-! ## Values under a name -/

namespace Json

/-- The values of the members with a name. -/
def valuesOf (name : String) (members : List (String × Json)) : List Json :=
  (members.filter fun member => member.1 = name).map (·.2)

theorem mem_valuesOf {name : String} {value : Json}
    {members : List (String × Json)} :
    value ∈ valuesOf name members ↔ (name, value) ∈ members := by
  simp [valuesOf]

theorem length_valuesOf (name : String) (members : List (String × Json)) :
    (valuesOf name members).length = (Assoc.keys members).count name := by
  rw [valuesOf, List.length_map, Assoc.keys, List.count, List.countP_map,
    List.countP_eq_length_filter]
  rfl

/-- Members give one value under a name, which reads as what is given, or they
give none. -/
def Gives {α : Type} (read : Json → Option α) (name : String)
    (members : List (String × Json)) (given : Option α) : Prop :=
  (valuesOf name members).map read = given.toList.map some

section Gives

variable {α : Type} {read : Json → Option α} {name : String} {value : Json}
  {members : List (String × Json)} {given : Option α}

theorem gives_cons_of_ne {key : String} (other : key ≠ name) :
    Gives read name ((key, value) :: members) given ↔
      Gives read name members given := by
  simp [Gives, valuesOf, other]

theorem gives_cons_self :
    Gives read name ((name, value) :: members) given ↔
      ∃ later, Gives read name members later ∧
        ParamSchema.firstGiven later (read value) = some given := by
  have split : Gives read name ((name, value) :: members) given ↔
      read value :: (valuesOf name members).map read =
        given.toList.map some := by
    simp [Gives, valuesOf]
  rw [split]
  constructor
  · intro same
    cases given with
    | none => cases same
    | some content =>
        obtain ⟨here, rest⟩ := List.cons.inj same
        exact ⟨none, rest, by rw [here]; rfl⟩
  · rintro ⟨later, rest, first⟩
    cases later with
    | some content => cases first
    | none =>
        cases here : read value with
        | none => simp [ParamSchema.firstGiven, here] at first
        | some content =>
            obtain rfl : some content = given := by
              simpa [ParamSchema.firstGiven, here] using first
            have none : (valuesOf name members).map read = [] := rest
            rw [none]
            rfl

theorem Gives.once (gives : Gives read name members given) :
    (Assoc.keys members).count name ≤ 1 := by
  have lengths := congrArg List.length gives
  rw [List.length_map, List.length_map, length_valuesOf] at lengths
  rw [lengths]
  cases given with
  | none => exact Nat.zero_le 1
  | some content => exact Nat.le_refl 1

theorem Gives.reads (gives : Gives read name members given)
    (there : (name, value) ∈ members) :
    ∃ content, given = some content ∧ read value = some content := by
  have listed : read value ∈ (valuesOf name members).map read :=
    List.mem_map_of_mem (mem_valuesOf.mpr there)
  rw [gives] at listed
  obtain ⟨content, held, same⟩ := List.mem_map.mp listed
  exact ⟨content, Option.mem_toList.mp held, same.symm⟩

theorem Gives.exists_member {content : α}
    (gives : Gives read name members (some content)) :
    ∃ value, (name, value) ∈ members ∧ read value = some content := by
  have listed : some content ∈ (valuesOf name members).map read := by
    rw [gives]
    exact List.mem_singleton_self _
  obtain ⟨value, there, same⟩ := List.mem_map.mp listed
  exact ⟨value, mem_valuesOf.mp there, same⟩

theorem eq_of_once {other : Json} (once : (Assoc.keys members).count name ≤ 1)
    (there : (name, value) ∈ members) (also : (name, other) ∈ members) :
    value = other := by
  rw [← length_valuesOf] at once
  have first := mem_valuesOf.mpr there
  have second := mem_valuesOf.mpr also
  match found : valuesOf name members with
  | [] => simp [found] at first
  | [only] =>
      rw [found, List.mem_singleton] at first second
      rw [first, second]
  | _ :: _ :: _ =>
      rw [found, List.length_cons, List.length_cons] at once
      omega

theorem exists_gives (once : (Assoc.keys members).count name ≤ 1)
    (readable : ∀ value, (name, value) ∈ members → (read value).isSome) :
    ∃ given, Gives read name members given := by
  rw [← length_valuesOf] at once
  cases found : valuesOf name members with
  | nil => exact ⟨none, by simp [Gives, found]⟩
  | cons value rest =>
      have alone : rest = [] := by
        rw [found, List.length_cons] at once
        exact List.eq_nil_of_length_eq_zero (by omega)
      have there : (name, value) ∈ members :=
        mem_valuesOf.mp (found ▸ List.mem_cons_self)
      obtain ⟨content, reads⟩ :=
        Option.isSome_iff_exists.mp (readable value there)
      exact ⟨some content, by simp [Gives, found, alone, reads]⟩

end Gives

end Json

open Json (Gives)

namespace ParamSchema

/-- A descriptor is what members give under the names that it knows. -/
structure Descriptor.Gathers (descriptor : Descriptor)
    (members : List (String × Json)) : Prop where
  type : Gives text? "type" members descriptor.type
  items : Gives (fun value => orNull value (ofJson? value)) "items" members
    descriptor.items
  properties : Gives (fun value => orNull value (propertiesOf? value))
    "properties" members descriptor.properties
  optional : Gives flag? "optional" members descriptor.optional
  default : Gives (fun value => some (default? value)) "default" members
    descriptor.default

/-- The part of `Gathers` that is not about one name. -/
structure Descriptor.GathersBut (name : String) (descriptor : Descriptor)
    (members : List (String × Json)) : Prop where
  type : name ≠ "type" → Gives text? "type" members descriptor.type
  items : name ≠ "items" →
    Gives (fun value => orNull value (ofJson? value)) "items" members
      descriptor.items
  properties : name ≠ "properties" →
    Gives (fun value => orNull value (propertiesOf? value)) "properties" members
      descriptor.properties
  optional : name ≠ "optional" →
    Gives flag? "optional" members descriptor.optional
  default : name ≠ "default" →
    Gives (fun value => some (default? value)) "default" members
      descriptor.default

section Members

variable {descriptor : Descriptor} {name : String} {value : Json}
  {rest : List (String × Json)}

theorem Descriptor.Gathers.but (gathers : descriptor.Gathers rest)
    (name : String) : descriptor.GathersBut name rest :=
  ⟨fun _ => gathers.type, fun _ => gathers.items, fun _ => gathers.properties,
    fun _ => gathers.optional, fun _ => gathers.default⟩

theorem gathersBut_cons :
    descriptor.GathersBut name ((name, value) :: rest) ↔
      descriptor.GathersBut name rest := by
  constructor
  · intro others
    constructor
    · exact fun other => (Json.gives_cons_of_ne other).mp (others.type other)
    · exact fun other => (Json.gives_cons_of_ne other).mp (others.items other)
    · exact fun other =>
        (Json.gives_cons_of_ne other).mp (others.properties other)
    · exact fun other =>
        (Json.gives_cons_of_ne other).mp (others.optional other)
    · exact fun other => (Json.gives_cons_of_ne other).mp (others.default other)
  · intro others
    constructor
    · exact fun other => (Json.gives_cons_of_ne other).mpr (others.type other)
    · exact fun other => (Json.gives_cons_of_ne other).mpr (others.items other)
    · exact fun other =>
        (Json.gives_cons_of_ne other).mpr (others.properties other)
    · exact fun other =>
        (Json.gives_cons_of_ne other).mpr (others.optional other)
    · exact fun other =>
        (Json.gives_cons_of_ne other).mpr (others.default other)

end Members

/-- The names of the members that descriptors know. -/
def descriptorNames : List String :=
  ["type", "items", "properties", "optional", "default"]

theorem gathers_of_descriptorOf? {members : List (String × Json)}
    {descriptor : Descriptor} (read : descriptorOf? members = some descriptor) :
    descriptor.Gathers members := by
  induction members generalizing descriptor with
  | nil =>
      cases read
      constructor <;> rfl
  | cons member rest ih =>
      obtain ⟨name, value⟩ := member
      rw [descriptorOf?] at read
      obtain ⟨later, found, named⟩ := Option.bind_eq_some_iff.mp read
      have known := ih found
      have others : later.GathersBut name ((name, value) :: rest) :=
        gathersBut_cons.mpr (known.but name)
      -- One case for each known name, and one for all others.
      split at named
      · obtain ⟨type, first, same⟩ := Option.bind_eq_some_iff.mp named
        cases same
        exact ⟨Json.gives_cons_self.mpr ⟨_, known.type, first⟩,
          others.items (by decide), others.properties (by decide),
          others.optional (by decide), others.default (by decide)⟩
      · obtain ⟨items, first, same⟩ := Option.bind_eq_some_iff.mp named
        cases same
        exact ⟨others.type (by decide),
          Json.gives_cons_self.mpr ⟨_, known.items, first⟩,
          others.properties (by decide), others.optional (by decide),
          others.default (by decide)⟩
      · obtain ⟨properties, first, same⟩ := Option.bind_eq_some_iff.mp named
        cases same
        exact ⟨others.type (by decide), others.items (by decide),
          Json.gives_cons_self.mpr ⟨_, known.properties, first⟩,
          others.optional (by decide), others.default (by decide)⟩
      · obtain ⟨optional, first, same⟩ := Option.bind_eq_some_iff.mp named
        cases same
        exact ⟨others.type (by decide), others.items (by decide),
          others.properties (by decide),
          Json.gives_cons_self.mpr ⟨_, known.optional, first⟩,
          others.default (by decide)⟩
      · obtain ⟨default, first, same⟩ := Option.bind_eq_some_iff.mp named
        cases same
        exact ⟨others.type (by decide), others.items (by decide),
          others.properties (by decide), others.optional (by decide),
          Json.gives_cons_self.mpr ⟨_, known.default, first⟩⟩
      · next noType noItems noProperties noOptional noDefault =>
          cases named
          exact ⟨others.type noType, others.items noItems,
            others.properties noProperties, others.optional noOptional,
            others.default noDefault⟩

/-- Members from which a descriptor can be gathered are read as that
descriptor. -/
theorem descriptorOf?_of_gathers {members : List (String × Json)}
    {descriptor : Descriptor} (gathers : descriptor.Gathers members) :
    descriptorOf? members = some descriptor := by
  induction members generalizing descriptor with
  | nil =>
      have nothing {α : Type} {read : Json → Option α} {name : String}
          {given : Option α} (gives : Gives read name [] given) :
          given = none := by
        cases given with
        | none => rfl
        | some content => cases gives
      obtain ⟨type, items, properties, optional, default⟩ := descriptor
      cases nothing gathers.type
      cases nothing gathers.items
      cases nothing gathers.properties
      cases nothing gathers.optional
      cases nothing gathers.default
      rfl
  | cons member rest ih =>
      obtain ⟨name, value⟩ := member
      have others := gathersBut_cons.mp (gathers.but name)
      by_cases known : name ∈ descriptorNames
      · simp only [descriptorNames, List.mem_cons, List.not_mem_nil,
          or_false] at known
        rcases known with rfl | rfl | rfl | rfl | rfl
        · obtain ⟨type, given, first⟩ := Json.gives_cons_self.mp gathers.type
          have read := @ih { descriptor with type }
            ⟨given, others.items (by decide), others.properties (by decide),
              others.optional (by decide), others.default (by decide)⟩
          simp [descriptorOf?, read, first]
        · obtain ⟨items, given, first⟩ := Json.gives_cons_self.mp gathers.items
          have read := @ih { descriptor with items }
            ⟨others.type (by decide), given, others.properties (by decide),
              others.optional (by decide), others.default (by decide)⟩
          simp [descriptorOf?, read, first]
        · obtain ⟨properties, given, first⟩ :=
            Json.gives_cons_self.mp gathers.properties
          have read := @ih { descriptor with properties }
            ⟨others.type (by decide), others.items (by decide), given,
              others.optional (by decide), others.default (by decide)⟩
          simp [descriptorOf?, read, first]
        · obtain ⟨optional, given, first⟩ :=
            Json.gives_cons_self.mp gathers.optional
          have read := @ih { descriptor with optional }
            ⟨others.type (by decide), others.items (by decide),
              others.properties (by decide), given, others.default (by decide)⟩
          simp [descriptorOf?, read, first]
        · obtain ⟨default, given, first⟩ :=
            Json.gives_cons_self.mp gathers.default
          have read := @ih { descriptor with default }
            ⟨others.type (by decide), others.items (by decide),
              others.properties (by decide), others.optional (by decide), given⟩
          simp [descriptorOf?, read, first]
      · simp only [descriptorNames, List.mem_cons, List.not_mem_nil,
          or_false, not_or] at known
        obtain ⟨noType, noItems, noProperties, noOptional, noDefault⟩ := known
        have read := ih ⟨others.type noType, others.items noItems,
          others.properties noProperties, others.optional noOptional,
          others.default noDefault⟩
        simp [descriptorOf?, read]

theorem ofJson?_object {members : List (String × Json)} {schema : ParamSchema} :
    ofJson? (.object members) = some schema ↔
      ∃ descriptor : Descriptor, descriptor.Gathers members ∧
        descriptor.schema? = some schema := by
  have read : ofJson? (.object members) =
      (descriptorOf? members).bind Descriptor.schema? := by
    rw [ofJson?]
    rfl
  rw [read, Option.bind_eq_some_iff]
  constructor
  · rintro ⟨descriptor, found, typed⟩
    exact ⟨descriptor, gathers_of_descriptorOf? found, typed⟩
  · rintro ⟨descriptor, gathers, typed⟩
    exact ⟨descriptor, descriptorOf?_of_gathers gathers, typed⟩

theorem members_of_schemasOf? {members : List (String × Json)}
    {schemas : List (String × ParamSchema)}
    (read : schemasOf? members = some schemas) :
    (∀ member ∈ members, (ofJson? member.2).isSome) ∧
      ∀ declared ∈ schemas, ∃ member ∈ members,
        ofJson? member.2 = some declared.2 := by
  induction members generalizing schemas with
  | nil =>
      cases read
      exact ⟨List.forall_mem_nil _, List.forall_mem_nil _⟩
  | cons member rest ih =>
      obtain ⟨name, value⟩ := member
      rw [schemasOf?] at read
      obtain ⟨schema, here, others⟩ := Option.bind_eq_some_iff.mp read
      obtain ⟨later, found, same⟩ := Option.bind_eq_some_iff.mp others
      cases same
      obtain ⟨readable, declaring⟩ := ih found
      constructor
      · refine List.forall_mem_cons.mpr ⟨?_, readable⟩
        exact Option.isSome_iff_exists.mpr ⟨schema, here⟩
      · refine List.forall_mem_cons.mpr
          ⟨⟨_, List.mem_cons_self, here⟩, fun declared there => ?_⟩
        obtain ⟨member, known, same⟩ := declaring declared there
        exact ⟨member, List.mem_cons_of_mem _ known, same⟩

theorem isSome_schemasOf? {members : List (String × Json)}
    (readable : ∀ member ∈ members, (ofJson? member.2).isSome) :
    (schemasOf? members).isSome := by
  induction members with
  | nil => rfl
  | cons member rest ih =>
      obtain ⟨first, others⟩ := List.forall_mem_cons.mp readable
      obtain ⟨schema, here⟩ := Option.isSome_iff_exists.mp first
      obtain ⟨schemas, found⟩ := Option.isSome_iff_exists.mp (ih others)
      simp [schemasOf?, here, found]

end ParamSchema

end TagDoc
