import TagDoc.Proofs.TypeOutlines

/-!
# The structure of resolved types

A schema inside a declared schema has a place: the numbers of the properties
that lead to it, where the levels of arrays count nothing.  Places in their
lexicographic order are a walk that is depth first, takes an object before what
is declared inside it and properties in their order of declaration.  The detail
sections of a resolved type and its findings about arrays follow this walk, and
the annotations have no part in it.
-/

namespace TagDoc

namespace ParamSchema

/-! ## Levels of arrays -/

/-- The levels of arrays down to the first schema that is no array.  An array
without declared elements is the last level. -/
def arrayLevels : ParamSchema → Nat
  | .array items _ => items.arrayLevels + 1
  | .untypedArray _ => 1
  | .scalar .. | .untypedObject _ | .object .. => 0

/-- The type below all levels of arrays. -/
def elementType : ParamSchema → String
  | .array items _ => items.elementType
  | .scalar type _ => type
  | .untypedArray _ => "any"
  | .untypedObject _ | .object .. => "object"

/-- The element type behind a pair of brackets for each level of arrays. -/
def bracketed (schema : ParamSchema) : String :=
  String.join (List.replicate schema.arrayLevels "[]") ++ schema.elementType

theorem canonical_eq_bracketed (schema : ParamSchema) :
    schema.canonical = schema.bracketed := by
  induction schema using canonical.induct with
  | case1 type presence => simp [canonical, bracketed, arrayLevels, elementType]
  | case2 presence => rfl
  | case3 items presence ih =>
      rw [canonical, ih, bracketed, bracketed, arrayLevels, elementType,
        List.replicate_succ, String.join_cons, String.append_assoc]
  | case4 presence => rfl
  | case5 properties presence => rfl

/-! ## Places -/

/-- The properties with the numbers `place` and the names `keys` lead from one
schema to another.  Levels of arrays on the way have neither number nor
name. -/
inductive Reaches :
    ParamSchema → List Nat → List String → ParamSchema → Prop where
  | here {schema : ParamSchema} : Reaches schema [] [] schema
  | element {place : List Nat} {keys : List String}
      {items inner : ParamSchema} {presence : Presence} :
      Reaches items place keys inner →
      Reaches (.array items presence) place keys inner
  | property {index : Nat} {key : String} {place : List Nat}
      {keys : List String} {outer inner : ParamSchema}
      {properties : List (String × ParamSchema)} {presence : Presence} :
      properties[index]? = some (key, outer) →
      Reaches outer place keys inner →
      Reaches (.object properties presence) (index :: place) (key :: keys)
        inner

/-- A schema inside another, with its place and the names that lead to it. -/
structure Inner where
  place : List Nat
  keys : List String
  schema : ParamSchema

/-- The same schema seen from the object around a property. -/
def Inner.below (index : Nat) (key : String) (inner : Inner) : Inner :=
  ⟨index :: inner.place, key :: inner.keys, inner.schema⟩

def hasElements : ParamSchema → Bool
  | .array .. => true
  | _ => false

mutual

/-- The walk through a schema.  An array with declared elements shares its
place with them and is left out. -/
def walk : ParamSchema → List Inner
  | .array items _ => walk items
  | .object properties presence =>
      ⟨[], [], .object properties presence⟩ :: walkFrom 0 properties
  | .scalar type presence => [⟨[], [], .scalar type presence⟩]
  | .untypedArray presence => [⟨[], [], .untypedArray presence⟩]
  | .untypedObject presence => [⟨[], [], .untypedObject presence⟩]

/-- The walk through properties, the first of which has number `index`. -/
def walkFrom (index : Nat) : List (String × ParamSchema) → List Inner
  | [] => []
  | (key, schema) :: rest =>
      (walk schema).map (Inner.below index key) ++ walkFrom (index + 1) rest

end

mutual

theorem reaches_of_mem_walk {schema : ParamSchema} {inner : Inner}
    (member : inner ∈ schema.walk) :
    schema.Reaches inner.place inner.keys inner.schema ∧
      inner.schema.hasElements = false := by
  cases schema with
  | scalar type presence =>
      obtain rfl := List.mem_singleton.mp member
      exact ⟨.here, rfl⟩
  | untypedArray presence =>
      obtain rfl := List.mem_singleton.mp member
      exact ⟨.here, rfl⟩
  | array items presence =>
      have inside : inner ∈ items.walk := member
      obtain ⟨leads, plain⟩ := reaches_of_mem_walk inside
      exact ⟨.element leads, plain⟩
  | untypedObject presence =>
      obtain rfl := List.mem_singleton.mp member
      exact ⟨.here, rfl⟩
  | object properties presence =>
      rcases List.mem_cons.mp member with rfl | nested
      · exact ⟨.here, rfl⟩
      · obtain ⟨index, key, outer, deeper, found, rfl, leads, plain⟩ :=
          reaches_of_mem_walkFrom nested
        rw [Nat.zero_add] at *
        exact ⟨.property found leads, plain⟩

theorem reaches_of_mem_walkFrom {start : Nat}
    {properties : List (String × ParamSchema)} {inner : Inner}
    (member : inner ∈ walkFrom start properties) :
    ∃ index key outer deeper,
      properties[index]? = some (key, outer) ∧
        inner = Inner.below (start + index) key deeper ∧
        outer.Reaches deeper.place deeper.keys deeper.schema ∧
        deeper.schema.hasElements = false := by
  cases properties with
  | nil => cases member
  | cons property rest =>
      obtain ⟨key, schema⟩ := property
      rcases List.mem_append.mp member with own | later
      · obtain ⟨deeper, inside, rfl⟩ := List.mem_map.mp own
        obtain ⟨leads, plain⟩ := reaches_of_mem_walk inside
        exact ⟨0, key, schema, deeper, rfl, rfl, leads, plain⟩
      · obtain ⟨index, other, outer, deeper, found, rfl, leads, plain⟩ :=
          reaches_of_mem_walkFrom later
        refine ⟨index + 1, other, outer, deeper, found, ?_, leads, plain⟩
        rw [Nat.add_assoc, Nat.add_comm 1]

end

theorem mem_walkFrom {start index : Nat} {key : String} {outer : ParamSchema}
    {properties : List (String × ParamSchema)} {inner : Inner}
    (found : properties[index]? = some (key, outer))
    (inside : inner ∈ outer.walk) :
    Inner.below (start + index) key inner ∈ walkFrom start properties := by
  induction properties generalizing start index with
  | nil => cases found
  | cons property rest ih =>
      obtain ⟨first, schema⟩ := property
      rw [walkFrom]
      cases index with
      | zero =>
          cases found
          exact List.mem_append_left _ (List.mem_map_of_mem inside)
      | succ index =>
          apply List.mem_append_right
          have deeper :
              Inner.below (start + 1 + index) key inner ∈
                walkFrom (start + 1) rest := ih found
          rwa [Nat.add_assoc, Nat.add_comm 1] at deeper

/-- The walk meets exactly the schemas that properties lead to. -/
theorem mem_walk_iff {schema : ParamSchema} {inner : Inner} :
    inner ∈ schema.walk ↔
      schema.Reaches inner.place inner.keys inner.schema ∧
        inner.schema.hasElements = false := by
  constructor
  · exact reaches_of_mem_walk
  · obtain ⟨place, keys, schema⟩ := inner
    rintro ⟨leads, plain⟩
    simp only at leads plain
    induction leads with
    | @here schema =>
        cases schema with
        | array items presence => cases plain
        | scalar type presence => exact List.mem_cons_self
        | untypedArray presence => exact List.mem_cons_self
        | untypedObject presence => exact List.mem_cons_self
        | object properties presence => exact List.mem_cons_self
    | element _ ih => exact ih plain
    | @property index key place keys outer inner properties presence found _
        ih =>
        have met :
            Inner.below (0 + index) key ⟨place, keys, inner⟩ ∈
              walkFrom 0 properties := mem_walkFrom found (ih plain)
        rw [Nat.zero_add] at met
        exact List.mem_cons_of_mem _ met

/-! ## The order of the walk -/

theorem le_head_of_mem_walkFrom {start : Nat}
    {properties : List (String × ParamSchema)} {inner : Inner}
    (member : inner ∈ walkFrom start properties) :
    ∃ index place, start ≤ index ∧ inner.place = index :: place := by
  obtain ⟨index, key, outer, deeper, _, rfl, _⟩ :=
    reaches_of_mem_walkFrom member
  exact ⟨start + index, deeper.place, Nat.le_add_right _ _, rfl⟩

mutual

/-- Each place is met once, in lexicographic order. -/
theorem pairwise_walk (schema : ParamSchema) :
    schema.walk.Pairwise fun first second => first.place < second.place := by
  cases schema with
  | scalar type presence => exact List.pairwise_singleton _ _
  | untypedArray presence => exact List.pairwise_singleton _ _
  | array items presence => exact pairwise_walk items
  | untypedObject presence => exact List.pairwise_singleton _ _
  | object properties presence =>
      rw [walk]
      apply List.Pairwise.cons _ (pairwise_walkFrom 0 properties)
      intro inner nested
      obtain ⟨index, place, _, spelled⟩ := le_head_of_mem_walkFrom nested
      rw [spelled]
      exact List.nil_lt_cons index place

theorem pairwise_walkFrom (start : Nat)
    (properties : List (String × ParamSchema)) :
    (walkFrom start properties).Pairwise fun first second =>
      first.place < second.place := by
  cases properties with
  | nil => exact .nil
  | cons property rest =>
      obtain ⟨key, schema⟩ := property
      rw [walkFrom]
      apply List.pairwise_append.mpr
      refine ⟨?_, pairwise_walkFrom (start + 1) rest, ?_⟩
      · apply List.pairwise_map.mpr
        apply (pairwise_walk schema).imp
        intro first second before
        exact List.cons_lt_cons_iff.mpr (.inr ⟨rfl, before⟩)
      · intro first own second later
        obtain ⟨inner, _, rfl⟩ := List.mem_map.mp own
        obtain ⟨index, place, further, spelled⟩ :=
          le_head_of_mem_walkFrom later
        rw [spelled]
        exact List.cons_lt_cons_iff.mpr (.inl further)

end

/-! ## Schemas of one kind -/

/-- The list has the schemas of a kind inside a schema, each once, in the order
of their places. -/
structure Lists (schema : ParamSchema) (kind : ParamSchema → Bool)
    (listed : List Inner) : Prop where
  ordered : listed.Pairwise fun first second => first.place < second.place
  listed_iff : ∀ inner, inner ∈ listed ↔
    schema.Reaches inner.place inner.keys inner.schema ∧
      kind inner.schema = true

theorem lists_filter_walk (schema : ParamSchema) {kind : ParamSchema → Bool}
    (plain : ∀ inner, kind inner = true → inner.hasElements = false) :
    schema.Lists kind (schema.walk.filter fun inner => kind inner.schema) := by
  constructor
  · exact (pairwise_walk schema).filter _
  · intro inner
    rw [List.mem_filter, mem_walk_iff]
    constructor
    · rintro ⟨⟨leads, _⟩, kept⟩
      exact ⟨leads, kept⟩
    · rintro ⟨leads, kept⟩
      exact ⟨⟨leads, plain _ kept⟩, kept⟩

def declaresProperties : ParamSchema → Bool
  | .object .. => true
  | _ => false

def properties : ParamSchema → List (String × ParamSchema)
  | .object properties _ => properties
  | _ => []

def lacksElements : ParamSchema → Bool
  | .untypedArray _ => true
  | _ => false

/-- The objects on the walk through a schema. -/
def innerObjects (schema : ParamSchema) : List Inner :=
  schema.walk.filter fun inner => inner.schema.declaresProperties

/-- The arrays without declared elements on the walk through a schema. -/
def innerUntyped (schema : ParamSchema) : List Inner :=
  schema.walk.filter fun inner => inner.schema.lacksElements

theorem lists_innerObjects (schema : ParamSchema) :
    schema.Lists declaresProperties schema.innerObjects := by
  apply lists_filter_walk
  intro inner declares
  cases inner with
  | array items presence => cases declares
  | _ => rfl

theorem lists_innerUntyped (schema : ParamSchema) :
    schema.Lists lacksElements schema.innerUntyped := by
  apply lists_filter_walk
  intro inner lacks
  cases inner with
  | array items presence => cases lacks
  | _ => rfl

theorem filter_map_below (kind : ParamSchema → Bool) (index : Nat)
    (key : String) (listed : List Inner) :
    ((listed.map (Inner.below index key)).filter fun inner =>
        kind inner.schema) =
      (listed.filter fun inner => kind inner.schema).map
        (Inner.below index key) := by
  rw [List.filter_map]
  rfl

mutual

theorem objects_eq_innerObjects (names : List String) (schema : ParamSchema) :
    schema.objects names = schema.innerObjects.map fun inner =>
      (names ++ inner.keys, inner.schema.properties) := by
  cases schema with
  | scalar type presence => rfl
  | untypedArray presence => rfl
  | array items presence => exact objects_eq_innerObjects names items
  | untypedObject presence => rfl
  | object properties presence =>
      have nested := objectsOf_eq_walkFrom names 0 properties
      rw [objects, nested, innerObjects, walk,
        List.filter_cons_of_pos (by rfl), List.map_cons, List.append_nil]
      rfl

theorem objectsOf_eq_walkFrom (names : List String) (start : Nat)
    (properties : List (String × ParamSchema)) :
    objectsOf names properties =
      ((walkFrom start properties).filter fun inner =>
        inner.schema.declaresProperties).map fun inner =>
          (names ++ inner.keys, inner.schema.properties) := by
  cases properties with
  | nil => rfl
  | cons property rest =>
      obtain ⟨key, schema⟩ := property
      have own := objects_eq_innerObjects (names ++ [key]) schema
      have later := objectsOf_eq_walkFrom names (start + 1) rest
      rw [objectsOf, own, later, walkFrom, List.filter_append,
        filter_map_below, List.map_append, List.map_map, innerObjects]
      simp [Function.comp_def, Inner.below]

end

end ParamSchema

namespace ResolvedType

/-- The finding about an array without declared elements. -/
def untypedFinding (unit : String) (names : List String)
    (inner : ParamSchema.Inner) : Finding :=
  .untypedArray (dotted (names ++ inner.keys)) unit

theorem filter_findings_describe (unit name : String)
    (child : Option ParamNode) :
    (describe unit name child).findings.filter (fun finding =>
      !finding.isUndocumentedProperty) = [] := by
  unfold describe
  split
  · rfl
  · rfl

mutual

theorem filter_findings_resolve (unit : String) {names : List String}
    (named : names ≠ []) (node : Option ParamNode) (schema : ParamSchema) :
    (resolve unit (dotted names) node schema).findings.filter (fun finding =>
        !finding.isUndocumentedProperty) =
      schema.innerUntyped.map (untypedFinding unit names) := by
  cases schema with
  | scalar type presence => rfl
  | untypedArray presence =>
      simp [resolve, ParamSchema.innerUntyped, ParamSchema.walk,
        ParamSchema.lacksElements, untypedFinding,
        Finding.isUndocumentedProperty]
  | array items presence =>
      have inside := filter_findings_resolve unit named node items
      rw [resolve, Diagnosed.findings_bind, Diagnosed.findings_pure,
        List.append_nil, inside]
      rfl
  | untypedObject presence => rfl
  | object properties presence =>
      have inside := filter_findings_resolveProperties unit named node 0
        properties
      rw [resolve, Diagnosed.findings_bind, Diagnosed.findings_pure,
        List.append_nil, inside]
      rfl

theorem filter_findings_resolveProperties (unit : String)
    {names : List String} (named : names ≠ []) (node : Option ParamNode)
    (start : Nat) (properties : List (String × ParamSchema)) :
    (resolveProperties unit (dotted names) node properties).findings.filter
        (fun finding => !finding.isUndocumentedProperty) =
      ((ParamSchema.walkFrom start properties).filter fun inner =>
        inner.schema.lacksElements).map (untypedFinding unit names) := by
  cases properties with
  | nil => rfl
  | cons property rest =>
      obtain ⟨key, schema⟩ := property
      have longer : names ++ [key] ≠ [] := by simp
      have own := filter_findings_resolve unit longer
        (node.bind fun node => ParamTree.get? key node.children) schema
      have later := filter_findings_resolveProperties unit named node
        (start + 1) rest
      have nested : untypedFinding unit (names ++ [key]) =
          untypedFinding unit names ∘ ParamSchema.Inner.below start key := by
        funext inner
        simp [untypedFinding, ParamSchema.Inner.below]
      rw [dotted_append_singleton named] at own
      rw [ParamSchema.walkFrom, List.filter_append,
        ParamSchema.filter_map_below, List.map_append, List.map_map, ← nested,
        ← ParamSchema.innerUntyped, ← own, ← later]
      simp [resolveProperties, resolve_ite, filter_findings_describe]

end

/-- The type of a parameter shows its array levels and the type below them.  It
has one section for each object with declared properties, in the order of their
places and named by the names that lead there, with a row for each property.
Apart from missing annotations, what is found are the arrays without declared
elements, in the same order.  Annotations only decide the descriptions and which
of them are missing. -/
theorem resolve_follows_schema (unit name : String) (schema : ParamSchema)
    (node other : Option ParamNode) :
    let resolved := resolve unit name node schema
    let again := resolve unit name other schema
    resolved.value.canonical = schema.bracketed ∧
      (∃ objects, schema.Lists ParamSchema.declaresProperties objects ∧
        resolved.value.details.map DetailSection.outline =
          objects.map fun object =>
            (dotted (name :: object.keys),
              object.schema.properties.map fun property =>
                (property.1, property.2.bracketed))) ∧
      (∃ arrays, schema.Lists ParamSchema.lacksElements arrays ∧
        resolved.findings.filter (fun finding =>
            !finding.isUndocumentedProperty) =
          arrays.map fun array =>
            .untypedArray (dotted (name :: array.keys)) unit) ∧
      again.value.canonical = resolved.value.canonical ∧
      again.value.details.map DetailSection.outline =
        resolved.value.details.map DetailSection.outline ∧
      again.findings.filter (fun finding =>
          !finding.isUndocumentedProperty) =
        resolved.findings.filter fun finding =>
          !finding.isUndocumentedProperty := by
  intro resolved again
  have named : [name] ≠ [] := List.cons_ne_nil _ _
  have alone : dotted [name] = name := String.intercalate_singleton
  have outline (node : Option ParamNode) :=
    outline_resolve unit named node schema
  have findings (node : Option ParamNode) :=
    filter_findings_resolve unit named node schema
  rw [alone] at outline findings
  refine ⟨?_, ?_, ?_, ?_, ?_, ?_⟩
  · exact (outline node).1.trans schema.canonical_eq_bracketed
  · refine ⟨schema.innerObjects, schema.lists_innerObjects, ?_⟩
    rw [(outline node).2, ParamSchema.objects_eq_innerObjects, List.map_map]
    apply List.map_congr_left
    intro object _
    simp [ParamSchema.objectOutline, ParamSchema.canonical_eq_bracketed]
  · exact ⟨schema.innerUntyped, schema.lists_innerUntyped, findings node⟩
  · exact (outline other).1.trans (outline node).1.symm
  · exact (outline other).2.trans (outline node).2.symm
  · exact (findings other).trans (findings node).symm

end ResolvedType

end TagDoc
