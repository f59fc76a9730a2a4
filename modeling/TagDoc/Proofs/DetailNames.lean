import Mathlib.Data.List.Nodup
import TagDoc.Proofs.DeclaredNames
import TagDoc.Proofs.TypeOutlines

/-!
# The names of detail sections

The objects that a route declares are led to by different sequences of names,
one detail section for each.  A section shows its sequence joined with dots,
which tells sequences apart unless a name has a dot of its own: a parameter
`a.b` and the property `b` of a parameter `a` share one heading.
-/

namespace TagDoc

/-! ## Sequences of names -/

namespace ParamSchema

mutual

theorem prefix_of_mem_objects {names : List String} {schema : ParamSchema}
    {object : List String × List (String × ParamSchema)}
    (member : object ∈ schema.objects names) : names <+: object.1 := by
  cases schema with
  | scalar type presence => cases member
  | untypedArray presence => cases member
  | array items presence =>
      have inside : object ∈ items.objects names := member
      exact prefix_of_mem_objects inside
  | untypedObject presence => cases member
  | object properties presence =>
      rcases List.mem_cons.mp member with rfl | nested
      · exact List.prefix_rfl
      · obtain ⟨key, _, leads⟩ := exists_key_of_mem_objectsOf nested
        exact (List.prefix_append names [key]).trans leads

theorem exists_key_of_mem_objectsOf {names : List String}
    {properties : List (String × ParamSchema)}
    {object : List String × List (String × ParamSchema)}
    (member : object ∈ objectsOf names properties) :
    ∃ key ∈ Assoc.keys properties, names ++ [key] <+: object.1 := by
  cases properties with
  | nil => cases member
  | cons property rest =>
      obtain ⟨key, schema⟩ := property
      rcases List.mem_append.mp member with own | later
      · exact ⟨key, List.mem_cons_self, prefix_of_mem_objects own⟩
      · obtain ⟨other, named, leads⟩ := exists_key_of_mem_objectsOf later
        exact ⟨other, List.mem_cons_of_mem _ named, leads⟩

end

/-- Below different names the sequences differ. -/
theorem nodup_objectsOf {names : List String}
    {properties : List (String × ParamSchema)}
    (distinct : (Assoc.keys properties).Nodup)
    (each : ∀ property ∈ properties,
      ((property.2.objects (names ++ [property.1])).map Prod.fst).Nodup) :
    ((objectsOf names properties).map Prod.fst).Nodup := by
  induction properties with
  | nil => exact List.nodup_nil
  | cons property rest ih =>
      obtain ⟨key, schema⟩ := property
      obtain ⟨absent, others⟩ := List.nodup_cons.mp distinct
      obtain ⟨own, later⟩ := List.forall_mem_cons.mp each
      rw [objectsOf, List.map_append]
      refine List.nodup_append.mpr ⟨own, ih others later, ?_⟩
      intro path here other there same
      obtain ⟨first, inFirst, rfl⟩ := List.mem_map.mp here
      obtain ⟨second, inSecond, rfl⟩ := List.mem_map.mp there
      obtain ⟨different, named, leads⟩ := exists_key_of_mem_objectsOf inSecond
      -- Both sequences go on with their property after the same names.
      have longer : names ++ [key] <+: second.1 :=
        same ▸ prefix_of_mem_objects inFirst
      have equal := List.prefix_of_prefix_length_le longer leads (by simp)
      have whole := equal.eq_of_length (by simp)
      obtain rfl : key = different := by simpa using whole
      exact absent named

theorem WellNamed.nodup_objects {schema : ParamSchema}
    (sound : schema.WellNamed) (names : List String) :
    ((schema.objects names).map Prod.fst).Nodup := by
  induction sound generalizing names with
  | scalar => exact List.nodup_nil
  | untypedArray => exact List.nodup_nil
  | array _ ih => exact ih names
  | untypedObject => exact List.nodup_nil
  | @object properties presence distinct _ ih =>
      rw [objects, List.map_cons]
      refine List.nodup_cons.mpr ⟨?_, nodup_objectsOf distinct
        fun property member => ih property member _⟩
      intro again
      obtain ⟨object, member, same⟩ := List.mem_map.mp again
      obtain ⟨key, _, leads⟩ := exists_key_of_mem_objectsOf member
      have longer := leads.length_le
      simp only [same, List.length_append, List.length_singleton] at longer
      omega

end ParamSchema

/-! ## Joining with dots -/

theorem splitOn_dotted {names : List String} (named : names ≠ [])
    (dotless : ∀ name ∈ names, '.' ∉ name.toList) :
    (dotted names).toList.splitOn '.' = names.map String.toList := by
  rw [dotted, String.toList_intercalate]
  refine List.splitOn_intercalate '.' ?_ (by simpa using named)
  simpa using dotless

theorem dotted_inj {first second : List String} (firstNamed : first ≠ [])
    (secondNamed : second ≠ [])
    (firstDotless : ∀ name ∈ first, '.' ∉ name.toList)
    (secondDotless : ∀ name ∈ second, '.' ∉ name.toList)
    (same : dotted first = dotted second) : first = second := by
  have split : first.map String.toList = second.map String.toList := by
    rw [← splitOn_dotted firstNamed firstDotless, same,
      splitOn_dotted secondNamed secondDotless]
  exact List.map_injective_iff.mpr (fun _ _ => String.toList_injective) split

/-! ## The sections of a route -/

/-- The names that lead to each object that a route declares. -/
def Route.objectPaths (route : Route) : List (List String) :=
  (ParamSchema.objectsOf [] route.params).map Prod.fst

theorem Route.ne_nil_of_mem_objectPaths {route : Route} {path : List String}
    (member : path ∈ route.objectPaths) : path ≠ [] := by
  obtain ⟨object, listed, rfl⟩ := List.mem_map.mp member
  obtain ⟨key, _, leads⟩ := ParamSchema.exists_key_of_mem_objectsOf listed
  exact leads.ne_nil (by simp)

/-- The detail sections of the declared parameters of a route. -/
def Route.details (unit : String) (doc : DocComment) (route : Route) :
    List DetailSection :=
  RoutePage.detailSections (resolveParams unit doc route.params).value
    route.params

theorem DetailSection.nodup_titles_iff {details : List DetailSection} :
    (details.map DetailSection.title).Nodup ↔
      (details.map DetailSection.name).Nodup := by
  have titles : details.map DetailSection.title =
      (details.map DetailSection.name).map (· ++ "对象详解") := by
    rw [List.map_map]
    rfl
  rw [titles]
  refine List.nodup_map_iff fun first second same => ?_
  exact (String.append_left_inj _).mp same

/-- The sections of a decoded route show different sequences of names, joined
with dots.  Their headings differ exactly where joining tells the sequences
apart, and so whenever no name has a dot. -/
theorem detailNames_dotted {dialect : Json.Decoder.Dialect}
    {draft : Json.Draft} {route : Route}
    (decoded : Route.decoder dialect draft = .ok route) (unit : String)
    (doc : DocComment) :
    let names := (route.details unit doc).map DetailSection.name
    let titles := (route.details unit doc).map DetailSection.title
    names = route.objectPaths.map dotted ∧
      route.objectPaths.Nodup ∧
      (titles.Nodup ↔ names.Nodup) ∧
      (names.Nodup ↔ ∀ first ∈ route.objectPaths,
        ∀ second ∈ route.objectPaths,
          dotted first = dotted second → first = second) ∧
      ((∀ path ∈ route.objectPaths, ∀ name ∈ path, '.' ∉ name.toList) →
        names.Nodup ∧ titles.Nodup) := by
  intro names titles
  have sound := Route.wellNamed_of_decoder decoded
  have paths : names = route.objectPaths.map dotted := by
    have outline := congrArg (List.map Prod.fst)
      (outline_detailSections unit doc sound.distinct)
    simpa [names, Route.details, Route.objectPaths, Function.comp_def,
      DetailSection.outline, ParamSchema.objectOutline] using outline
  have distinct : route.objectPaths.Nodup :=
    ParamSchema.nodup_objectsOf sound.distinct fun param member =>
      (sound.each param member).nodup_objects _
  have joined : names.Nodup ↔ ∀ first ∈ route.objectPaths,
      ∀ second ∈ route.objectPaths,
        dotted first = dotted second → first = second := by
    rw [paths]
    exact List.nodup_map_iff_inj_on distinct
  have headings : titles.Nodup ↔ names.Nodup := DetailSection.nodup_titles_iff
  refine ⟨paths, distinct, headings, joined, fun dotless => ?_⟩
  have apart : names.Nodup := joined.mpr fun first here second there same =>
    dotted_inj (Route.ne_nil_of_mem_objectPaths here)
      (Route.ne_nil_of_mem_objectPaths there) (dotless first here)
      (dotless second there) same
  exact ⟨apart, headings.mpr apart⟩

/-- The declaration of an object with its properties. -/
def objectDeclaration (properties : List (String × Json)) : Json :=
  .object [("type", .string "object"), ("properties", .object properties)]

/-- A registry entry that declares parameters. -/
def routeDeclaration (params : List (String × Json)) : Json :=
  .object [("key", .string "order"), ("path", .string "/order"),
    ("params", .object params)]

/-- A property of array elements and a parameter of one name have headings of
their own. -/
theorem detailNames_dotted_lines :
    let lines := objectDeclaration [("sku", .string "string")]
    let order := Json.object
      [("type", .string "array"),
        ("items", objectDeclaration [("lines", lines)])]
    let json := routeDeclaration [("order", order), ("lines", lines)]
    let linesSchema := ParamSchema.object [("sku", .scalar "string" {})] {}
    let route : Route :=
      { key := "order"
        path := "/order"
        params :=
          [("order", .array (.object [("lines", linesSchema)] {}) {}),
            ("lines", linesSchema)] }
    let details := route.details "handler" {}
    Route.decoder .text json.draft = .ok route ∧
      (∀ path ∈ route.objectPaths, ∀ name ∈ path, '.' ∉ name.toList) ∧
      details.map DetailSection.name = ["order", "order.lines", "lines"] ∧
      (details.map DetailSection.name).Nodup ∧
      (details.map DetailSection.title).Nodup := by
  intro lines order json linesSchema route details
  have decoded : Route.decoder .text json.draft = .ok route := rfl
  have dotless : ∀ path ∈ route.objectPaths, ∀ name ∈ path,
      '.' ∉ name.toList := by
    decide
  obtain ⟨joined, _, _, _, apart⟩ := detailNames_dotted decoded "handler" {}
  exact ⟨decoded, dotless, joined.trans (by decide), apart dotless⟩

/-- A parameter with a dot and the property of a parameter share a heading. -/
theorem not_detailNames_nodup :
    let json := routeDeclaration
      [("a.b", objectDeclaration [("x", .string "string")]),
        ("a", objectDeclaration
          [("b", objectDeclaration [("y", .string "string")])])]
    let route : Route :=
      { key := "order"
        path := "/order"
        params :=
          [("a.b", .object [("x", .scalar "string" {})] {}),
            ("a", .object
              [("b", .object [("y", .scalar "string" {})] {})] {})] }
    let details := route.details "handler" {}
    Route.decoder .text json.draft = .ok route ∧
      details.map DetailSection.name = ["a.b", "a", "a.b"] ∧
      ¬ (details.map DetailSection.name).Nodup ∧
      ¬ (details.map DetailSection.title).Nodup := by
  intro json route details
  have names : details.map DetailSection.name = ["a.b", "a", "a.b"] := by
    decide
  have again : ¬ (details.map DetailSection.name).Nodup := by
    rw [names]
    decide
  exact ⟨rfl, names, again, mt DetailSection.nodup_titles_iff.mp again⟩

end TagDoc
