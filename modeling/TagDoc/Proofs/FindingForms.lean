import TagDoc.Pass.Api

/-!
# The findings that each part can make

The parts of a pass make findings of different forms, all of which name the
unit they are about.  The lemmas here bound the forms for reading a comment,
resolving declared parameters, laying out a route page and listing entries;
the findings of the returns and of the table references are known exactly.
-/

namespace TagDoc

variable {unit : String} {finding : Finding}

theorem mem_findings_annotate {tree : ParamTree} {path text : String}
    (member : finding ∈ (ParamTree.annotate unit tree path text).findings) :
    finding = .malformedPath path unit ∨
      finding = .annotatedTwice path unit := by
  unfold ParamTree.annotate at member
  split at member
  · exact .inl (List.mem_singleton.mp member)
  · split at member
    · exact .inr (List.mem_singleton.mp member)
    · simp at member

theorem mem_findings_annotateAll {tree : ParamTree}
    {annotations : List (String × String)}
    (member :
      finding ∈ (ParamTree.annotateAll unit tree annotations).findings) :
    ∃ path, finding = .malformedPath path unit ∨
      finding = .annotatedTwice path unit := by
  induction annotations generalizing tree with
  | nil => simp [ParamTree.annotateAll] at member
  | cons step rest ih =>
      obtain ⟨path, text⟩ := step
      simp only [ParamTree.annotateAll, Diagnosed.findings_bind,
        List.mem_append] at member
      rcases member with here | later
      · exact ⟨path, mem_findings_annotate here⟩
      · exact ih later

theorem mem_findings_ofSource? {source : String} {doc : Diagnosed DocComment}
    (read : DocComment.ofSource? unit source = some doc)
    (member : finding ∈ doc.findings) :
    ∃ path, finding = .malformedPath path unit ∨
      finding = .annotatedTwice path unit := by
  obtain ⟨block, _, rfl⟩ := Option.map_eq_some_iff.mp read
  simp only [DocComment.ofTags, Diagnosed.findings_bind,
    Diagnosed.findings_pure, List.append_nil] at member
  exact mem_findings_annotateAll member

namespace ResolvedType

theorem mem_findings_describe {name : String} {child : Option ParamNode}
    (member : finding ∈ (describe unit name child).findings) :
    finding = .undocumentedProperty name unit := by
  unfold describe at member
  split at member
  · simp at member
  · exact List.mem_singleton.mp member

mutual

theorem mem_findings_resolve {name : String} {node : Option ParamNode}
    {schema : ParamSchema}
    (member : finding ∈ (resolve unit name node schema).findings) :
    ∃ path, finding = .untypedArray path unit ∨
      finding = .undocumentedProperty path unit := by
  cases schema with
  | scalar type presence => simp [resolve] at member
  | untypedArray presence =>
      exact ⟨name, .inl (List.mem_singleton.mp member)⟩
  | array items presence =>
      simp only [resolve, Diagnosed.findings_bind, Diagnosed.findings_pure,
        List.append_nil] at member
      exact mem_findings_resolve member
  | untypedObject presence => simp [resolve] at member
  | object properties presence =>
      simp only [resolve, Diagnosed.findings_bind, Diagnosed.findings_pure,
        List.append_nil] at member
      exact mem_findings_resolveProperties member

theorem mem_findings_resolveProperties {name : String}
    {node : Option ParamNode} {properties : List (String × ParamSchema)}
    (member :
      finding ∈ (resolveProperties unit name node properties).findings) :
    ∃ path, finding = .untypedArray path unit ∨
      finding = .undocumentedProperty path unit := by
  cases properties with
  | nil => simp [resolveProperties] at member
  | cons property rest =>
      simp only [resolveProperties, Diagnosed.findings_bind,
        Diagnosed.findings_pure, List.append_nil, List.mem_append] at member
      rcases member with own | type | later
      · exact ⟨_, .inr (mem_findings_describe own)⟩
      · exact mem_findings_resolve type
      · exact mem_findings_resolveProperties later

end

end ResolvedType

theorem mem_findings_resolveParams {doc : DocComment}
    {params : Assoc ParamSchema}
    (member : finding ∈ (resolveParams unit doc params).findings) :
    ∃ path, finding = .untypedArray path unit ∨
      finding = .undocumentedProperty path unit := by
  induction params with
  | nil => simp [resolveParams] at member
  | cons param rest ih =>
      simp only [resolveParams, Diagnosed.findings_bind,
        Diagnosed.findings_pure, List.append_nil, List.mem_append] at member
      rcases member with here | later
      · exact ResolvedType.mem_findings_resolve here
      · exact ih later

namespace RoutePage

variable {config : Config} {doc : DocComment} {resolved : Assoc ResolvedType}

theorem findings_declaredRow (name : String) (schema : ParamSchema) :
    (declaredRow config unit doc resolved name schema).findings =
      (if config.api.specialParamNames.contains name then
        [.shadowedParameter name unit]
      else []) ++
        if ((ParamTree.get? name doc.params).bind ParamNode.text?).isNone then
          [.undocumentedParameter name unit]
        else [] := by
  unfold declaredRow
  cases (ParamTree.get? name doc.params).bind ParamNode.text? with
  | none =>
      cases config.api.specialParamNames.contains name with
      | true => rfl
      | false => rfl
  | some text =>
      cases config.api.specialParamNames.contains name with
      | true => rfl
      | false => rfl

theorem mem_findings_declaredRow {name : String} {schema : ParamSchema}
    (member : finding ∈
      (declaredRow config unit doc resolved name schema).findings) :
    finding = .shadowedParameter name unit ∨
      finding = .undocumentedParameter name unit := by
  rw [findings_declaredRow] at member
  rcases List.mem_append.mp member with special | missing
  · split at special
    · exact .inl (List.mem_singleton.mp special)
    · simp at special
  · split at missing
    · exact .inr (List.mem_singleton.mp missing)
    · simp at missing

theorem mem_findings_declaredRows {params : Assoc ParamSchema}
    (member :
      finding ∈ (declaredRows config unit doc resolved params).findings) :
    ∃ name, finding = .shadowedParameter name unit ∨
      finding = .undocumentedParameter name unit := by
  induction params with
  | nil => simp [declaredRows] at member
  | cons param rest ih =>
      simp only [declaredRows, Diagnosed.findings_bind,
        Diagnosed.findings_pure, List.append_nil, List.mem_append] at member
      rcases member with here | later
      · exact ⟨param.1, mem_findings_declaredRow here⟩
      · exact ih later

theorem mem_findings_parameters {route : Route}
    (member :
      finding ∈ (parameters config unit doc route resolved).findings) :
    ∃ name, finding = .shadowedParameter name unit ∨
      finding = .undocumentedParameter name unit := by
  unfold parameters at member
  split at member
  · simp at member
  · simp only [Diagnosed.findings_bind, Diagnosed.findings_pure,
      List.append_nil] at member
    exact mem_findings_declaredRows member

theorem findings_returns (entries : List ReturnEntry) :
    (returns unit entries).findings =
      if entries.isEmpty then [.undocumentedReturn unit] else [] := by
  match entries with
  | [] => rfl
  | [only] =>
      by_cases raw : only.description.toList.head? = some '\n'
      · simp [returns, raw]
      · simp [returns, raw]
  | _ :: _ :: _ => rfl

theorem findings_tableItem (pages : PageIndex) (reference : String) :
    (tableItem config pages unit reference).findings =
      if (tableReference? reference).isNone then
        [.malformedTableReference reference unit]
      else [] := by
  unfold tableItem
  cases tableReference? reference with
  | none => rfl
  | some parts =>
      cases found : tableUrl? config pages parts.1 parts.2 with
      | none => simp [found]
      | some url => simp [found]

/-- Every malformed reference is reported once, in order. -/
theorem findings_tables (pages : PageIndex) (references : List String) :
    (tables config pages unit references).findings =
      (references.filter fun reference =>
        (tableReference? reference).isNone).map
          (.malformedTableReference · unit) := by
  have items : ∀ references : List String,
      (tableItems config pages unit references).findings =
        (references.filter fun reference =>
          (tableReference? reference).isNone).map
            (.malformedTableReference · unit) := by
    intro references
    induction references with
    | nil => rfl
    | cons reference rest ih =>
        cases malformed : (tableReference? reference).isNone with
        | true => simp [tableItems, findings_tableItem, malformed, ih]
        | false => simp [tableItems, findings_tableItem, malformed, ih]
  cases references with
  | nil => rfl
  | cons reference rest => simpa [tables] using items (reference :: rest)

end RoutePage

theorem findings_routePage (config : Config) (pages : PageIndex)
    (unit : String) (doc : DocComment) (route : Route) :
    (routePage config pages unit doc route).findings =
      (resolveParams unit doc route.params).findings ++
        ((RoutePage.parameters config unit doc route
          (resolveParams unit doc route.params).value).findings ++
        ((RoutePage.returns unit doc.returns).findings ++
        (RoutePage.tables config pages unit doc.tables).findings)) := by
  simp [routePage, Page.ofRoute]

/-- Every finding about a route page is about a declared type, a declared
parameter, the return or a table reference. -/
theorem mem_findings_routePage {config : Config} {pages : PageIndex}
    {doc : DocComment} {route : Route}
    (member : finding ∈ (routePage config pages unit doc route).findings) :
    (∃ path, finding = .untypedArray path unit ∨
        finding = .undocumentedProperty path unit) ∨
      (∃ name, finding = .shadowedParameter name unit ∨
        finding = .undocumentedParameter name unit) ∨
      finding = .undocumentedReturn unit ∨
      ∃ reference, finding = .malformedTableReference reference unit := by
  rw [findings_routePage] at member
  simp only [List.mem_append] at member
  rcases member with type | row | missing | reference
  · exact .inl (mem_findings_resolveParams type)
  · exact .inr (.inl (RoutePage.mem_findings_parameters row))
  · rw [RoutePage.findings_returns] at missing
    split at missing
    · exact .inr (.inr (.inl (List.mem_singleton.mp missing)))
    · cases missing
  · rw [RoutePage.findings_tables] at reference
    obtain ⟨text, _, same⟩ := List.mem_map.mp reference
    exact .inr (.inr (.inr ⟨text, same.symm⟩))

theorem mem_findings_ofIndex {nameHeader : String} {groups : List String}
    {entries : List IndexEntry}
    (member : finding ∈ (Page.ofIndex nameHeader groups entries).findings) :
    (∃ group names, finding = .unindexedGroup group names) ∨
      ∃ description names, finding = .sharedDescription description names := by
  simp only [Page.ofIndex, IndexPage.findings, List.mem_append] at member
  rcases member with unindexed | shared
  · obtain ⟨⟨group, names⟩, _, rfl⟩ := List.mem_map.mp unindexed
    exact .inl ⟨group, names, rfl⟩
  · obtain ⟨⟨description, names⟩, _, made⟩ := List.mem_filterMap.mp shared
    by_cases several : 1 < names.length
    · simp only [several, ↓reduceIte, Option.some.injEq] at made
      exact .inr ⟨description, names, made.symm⟩
    · simp [several] at made

end TagDoc
