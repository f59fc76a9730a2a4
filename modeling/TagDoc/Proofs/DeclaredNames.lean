import TagDoc.Proofs.Grouping
import TagDoc.Proofs.PageIndexFile
import TagDoc.Route

/-!
# Names in decoded registries

A registry may give a name more than once; what is decoded has each name once,
in the parameters of a route and in the properties of every object.
-/

namespace TagDoc

namespace Assoc

variable {α : Type}

theorem mem_ofList {entry : String × α} {pairs : List (String × α)}
    (member : entry ∈ ofList pairs) : entry ∈ pairs :=
  (mem_putAll member).resolve_right List.not_mem_nil

theorem nodup_keys_ofList (pairs : List (String × α)) :
    (keys (ofList pairs)).Nodup := by
  have names : keys (ofList pairs) = (keys pairs).eraseDups := keys_putAll pairs
  rw [names]
  exact nodup_eraseDups _

end Assoc

/-! ## Schemas -/

namespace ParamSchema

/-- Every object of a schema declares each of its properties once. -/
inductive WellNamed : ParamSchema → Prop where
  | scalar {type : String} {presence : Presence} :
      WellNamed (.scalar type presence)
  | untypedArray {presence : Presence} : WellNamed (.untypedArray presence)
  | array {items : ParamSchema} {presence : Presence} :
      WellNamed items → WellNamed (.array items presence)
  | untypedObject {presence : Presence} : WellNamed (.untypedObject presence)
  | object {properties : List (String × ParamSchema)} {presence : Presence} :
      (Assoc.keys properties).Nodup →
      (∀ property ∈ properties, WellNamed property.2) →
      WellNamed (.object properties presence)

/-- Parameters or properties with different names and well-named schemas. -/
structure AllWellNamed (declared : Assoc ParamSchema) : Prop where
  distinct : (Assoc.keys declared).Nodup
  each : ∀ entry ∈ declared, entry.2.WellNamed

/-- What a descriptor says of elements and properties is well named. -/
structure Descriptor.WellNamed (descriptor : Descriptor) : Prop where
  items : ∀ schema, descriptor.items = some (some schema) → schema.WellNamed
  properties : ∀ declared, descriptor.properties = some (some declared) →
    AllWellNamed declared

theorem wellNamed_ofType {type : String} {items : Option ParamSchema}
    {properties : Option (Assoc ParamSchema)} {presence : Presence}
    (inside : ∀ schema, items = some schema → schema.WellNamed)
    (below : ∀ declared, properties = some declared → AllWellNamed declared) :
    (ofType type items properties presence).WellNamed := by
  unfold ofType
  split
  · cases items with
    | none => exact .untypedArray
    | some schema => exact .array (inside schema rfl)
  · split
    · cases properties with
      | none => exact .untypedObject
      | some declared =>
          exact .object (below declared rfl).distinct (below declared rfl).each
    · exact .scalar

theorem Descriptor.WellNamed.schema? {descriptor : Descriptor}
    (sound : descriptor.WellNamed) {schema : ParamSchema}
    (typed : descriptor.schema? = some schema) : schema.WellNamed := by
  obtain ⟨type, _, rfl⟩ := Option.map_eq_some_iff.mp typed
  apply wellNamed_ofType
  · intro schema given
    apply sound.items
    cases items : descriptor.items with
    | none => simp [items] at given
    | some inner => simpa [items] using given
  · intro declared given
    apply sound.properties
    cases properties : descriptor.properties with
    | none => simp [properties] at given
    | some inner => simpa [properties] using given

theorem eq_of_firstGiven {α : Type} {given value result : Option α}
    (first : firstGiven given value = some result) : value = result := by
  unfold firstGiven at first
  split at first
  · cases first
    rfl
  · cases first

theorem orNull_eq_some {α : Type} {value : Json} {declared : Option α}
    {content : α} (read : orNull value declared = some (some content)) :
    declared = some content := by
  unfold orNull at read
  split at read
  · cases read
  · obtain ⟨inner, found, same⟩ := Option.map_eq_some_iff.mp read
    cases same
    exact found

mutual

theorem wellNamed_of_ofJson? {json : Json} {schema : ParamSchema}
    (read : ofJson? json = some schema) : schema.WellNamed := by
  cases json with
  | string type =>
      cases read
      exact wellNamed_ofType nofun nofun
  | object members =>
      obtain ⟨descriptor, found, typed⟩ := Option.bind_eq_some_iff.mp read
      exact (wellNamed_of_descriptorOf? found).schema? typed
  | null => cases read
  | bool value => cases read
  | number value => cases read
  | array items => cases read

theorem wellNamed_of_descriptorOf? {members : List (String × Json)}
    {descriptor : Descriptor} (read : descriptorOf? members = some descriptor) :
    descriptor.WellNamed := by
  cases members with
  | nil =>
      cases read
      exact ⟨nofun, nofun⟩
  | cons member rest =>
      obtain ⟨name, value⟩ := member
      rw [descriptorOf?] at read
      obtain ⟨later, others, named⟩ := Option.bind_eq_some_iff.mp read
      have sound := wellNamed_of_descriptorOf? others
      -- One case for each member that counts, and one for all others.
      split at named
      · obtain ⟨type, _, same⟩ := Option.bind_eq_some_iff.mp named
        cases same
        exact ⟨sound.items, sound.properties⟩
      · obtain ⟨items, given, same⟩ := Option.bind_eq_some_iff.mp named
        cases same
        refine ⟨fun schema found => ?_, sound.properties⟩
        have here := (eq_of_firstGiven given).trans found
        exact wellNamed_of_ofJson? (orNull_eq_some here)
      · obtain ⟨properties, given, same⟩ := Option.bind_eq_some_iff.mp named
        cases same
        refine ⟨sound.items, fun declared found => ?_⟩
        have here := (eq_of_firstGiven given).trans found
        exact wellNamed_of_propertiesOf? (orNull_eq_some here)
      · obtain ⟨optional, _, same⟩ := Option.bind_eq_some_iff.mp named
        cases same
        exact ⟨sound.items, sound.properties⟩
      · obtain ⟨default, _, same⟩ := Option.bind_eq_some_iff.mp named
        cases same
        exact ⟨sound.items, sound.properties⟩
      · cases named
        exact sound

theorem wellNamed_of_propertiesOf? {json : Json} {declared : Assoc ParamSchema}
    (read : propertiesOf? json = some declared) : AllWellNamed declared := by
  cases json with
  | object members =>
      obtain ⟨schemas, found, rfl⟩ := Option.map_eq_some_iff.mp read
      refine ⟨Assoc.nodup_keys_ofList schemas, fun entry member => ?_⟩
      exact wellNamed_of_schemasOf? found entry (Assoc.mem_ofList member)
  | null => cases read
  | bool value => cases read
  | number value => cases read
  | string text => cases read
  | array items => cases read

theorem wellNamed_of_schemasOf? {members : List (String × Json)}
    {schemas : List (String × ParamSchema)}
    (read : schemasOf? members = some schemas) :
    ∀ entry ∈ schemas, entry.2.WellNamed := by
  cases members with
  | nil =>
      cases read
      exact List.forall_mem_nil _
  | cons member rest =>
      obtain ⟨name, value⟩ := member
      rw [schemasOf?] at read
      obtain ⟨schema, first, others⟩ := Option.bind_eq_some_iff.mp read
      obtain ⟨later, found, same⟩ := Option.bind_eq_some_iff.mp others
      cases same
      exact List.forall_mem_cons.mpr
        ⟨wellNamed_of_ofJson? first, wellNamed_of_schemasOf? found⟩

end

theorem wellNamed_of_decoder {draft : Json.Draft} {schema : ParamSchema}
    (decoded : decoder draft = .ok schema) : schema.WellNamed := by
  obtain ⟨json, _, looked⟩ := bind_eq_ok.mp decoded
  cases found : ofJson? json with
  | none => simp [found] at looked
  | some other =>
      rw [found] at looked
      cases looked
      exact wellNamed_of_ofJson? found

end ParamSchema

/-! ## Routes -/

open Json Json.Decoder

/-- What holds of every decoded value holds of all values of an object. -/
theorem forall_of_members {α : Type} {holds : α → Prop} {decoder : Decoder α}
    (sound : ∀ draft value, decoder draft = .ok value → holds value)
    {entries result : Assoc α} {members : List (Option String × Draft)}
    (before : ∀ entry ∈ entries, holds entry.2)
    (decoded : Json.Decoder.members decoder entries members = .ok result) :
    ∀ entry ∈ result, holds entry.2 := by
  induction members generalizing entries with
  | nil =>
      cases decoded
      exact before
  | cons member rest ih =>
      obtain ⟨name, draft⟩ := member
      cases name with
      | none => cases decoded
      | some name =>
          obtain ⟨value, found, others⟩ := bind_eq_ok.mp decoded
          refine ih (fun entry put => ?_) others
          rcases Assoc.mem_put put with rfl | old
          · exact sound draft value found
          · exact before entry old

theorem forall_of_assoc {α : Type} {holds : α → Prop} {decoder : Decoder α}
    (sound : ∀ draft value, decoder draft = .ok value → holds value)
    {draft : Draft} {result : Assoc α}
    (decoded : assoc decoder draft = .ok result) :
    ∀ entry ∈ result, holds entry.2 := by
  unfold assoc at decoded
  split at decoded
  · obtain ⟨_, _, opened⟩ := bind_eq_ok.mp decoded
    obtain ⟨values, members, ended⟩ := bind_eq_ok.mp opened
    obtain ⟨_, _, same⟩ := bind_eq_ok.mp ended
    cases same
    exact forall_of_members sound (List.forall_mem_nil _) members
  · exact (refuse_ne_ok draft result decoded).elim

section Fields

variable {α ρ : Type} {holds : ρ → Prop} {name : String} {decoder : Decoder α}
  {set : α → ρ → ρ}
  (keeps : ∀ draft value record, decoder draft = .ok value →
    holds record → holds (set value record))

include keeps

/-- A field that a decoded value fills keeps what setting the value keeps. -/
theorem fillKeeps_needed : FillKeeps holds (.needed name decoder set) := by
  intro draft before after filled sound
  obtain ⟨value, found, same⟩ := bind_eq_ok.mp filled
  cases same
  exact keeps draft value before found sound

theorem fillKeeps_spare : FillKeeps holds (.spare name decoder set) := by
  have fills : FillKeeps holds (.needed name decoder set) :=
    fillKeeps_needed keeps
  exact fills

end Fields

theorem Route.wellNamed_of_decoder {dialect : Dialect} {draft : Draft}
    {route : Route} (decoded : Route.decoder dialect draft = .ok route) :
    ParamSchema.AllWellNamed route.params := by
  let holds (route : Route) : Prop := ParamSchema.AllWellNamed route.params
  have start : holds {} := ⟨List.nodup_nil, List.forall_mem_nil _⟩
  refine record_keeps (?_ : ∀ field ∈ _, FillKeeps holds field) start decoded
  simp only [List.forall_mem_cons]
  -- Of all fields only the parameters matter.
  refine ⟨fillKeeps_needed fun _ _ _ _ sound => sound,
    fillKeeps_needed fun _ _ _ _ sound => sound,
    fillKeeps_spare fun _ _ _ _ sound => sound,
    fillKeeps_spare fun _ _ _ found _ => ?_,
    fillKeeps_spare fun _ _ _ _ sound => sound,
    fillKeeps_spare fun _ _ _ _ sound => sound,
    fillKeeps_spare fun _ _ _ _ sound => sound,
    fillKeeps_spare fun _ _ _ _ sound => sound,
    fillKeeps_spare fun _ _ _ _ sound => sound, List.forall_mem_nil _⟩
  exact ⟨nodup_assoc found,
    forall_of_assoc (fun _ _ => ParamSchema.wellNamed_of_decoder) found⟩

end TagDoc
