import TagDoc.DocComment
import TagDoc.Proofs.Annotations

/-!
# Tags one after the other

The documentation of a unit is built by one pass over its tags, in which every
tag changes one part of the documentation and leaves the others.  What a part
becomes depends on the tags of one kind only, so tags of different kinds may
stand in any order among each other, and tags of unknown kinds anywhere.
-/

namespace TagDoc

/-- The kinds that document something. -/
def TagKind.known : List TagKind :=
  [.author, .param, .returns, .group, .description, .table, .todo]

theorem Tag.ofKind_append (kind : TagKind) (first second : List Tag) :
    ofKind kind (first ++ second) = ofKind kind first ++ ofKind kind second :=
  List.filter_append first second

namespace DocComment

/-! ## One tag -/

/-- The documentation with one more tag. -/
def addTag (unit : String) (doc : DocComment) (tag : Tag) :
    Diagnosed DocComment :=
  match tag.kind with
  | .author => pure { doc with author := some tag.author }
  | .param => do
      let (path, text) := tag.pathText
      let params ← ParamTree.annotate unit doc.params path text
      pure { doc with params }
  | .returns => pure { doc with returns := doc.returns ++ [tag.returnEntry] }
  | .group => pure { doc with group := some tag.body }
  | .description => pure { doc with notes := doc.notes ++ [tag.description] }
  | .table => pure { doc with tables := doc.tables ++ [tag.item] }
  | .todo => pure { doc with todos := doc.todos ++ [tag.item] }
  | .other _ => pure doc

/-- The documentation with further tags, one after the other. -/
def addTags (unit : String) : DocComment → List Tag → Diagnosed DocComment
  | doc, [] => pure doc
  | doc, tag :: rest => do
      let doc ← addTag unit doc tag
      addTags unit doc rest

/-- The parameters of a documentation, annotated by further tags. -/
def annotated (unit : String) (doc : DocComment) (tags : List Tag) :
    Diagnosed ParamTree :=
  ParamTree.annotateAll unit doc.params
    ((Tag.ofKind .param tags).map Tag.pathText)

/-- The documentation with the parts that further tags give, sorted by kind. -/
def withTags (unit : String) (doc : DocComment) (tags : List Tag) :
    DocComment :=
  { description := doc.description
    params := (annotated unit doc tags).value
    author := ((Tag.ofKind .author tags).getLast?.map Tag.author).or doc.author
    group := ((Tag.ofKind .group tags).getLast?.map Tag.body).or doc.group
    returns := doc.returns ++ (Tag.ofKind .returns tags).map Tag.returnEntry
    tables := doc.tables ++ (Tag.ofKind .table tags).map Tag.item
    notes := doc.notes ++ (Tag.ofKind .description tags).map Tag.description
    todos := doc.todos ++ (Tag.ofKind .todo tags).map Tag.item }

theorem addTag_eq (unit : String) (doc : DocComment) (tag : Tag) :
    addTag unit doc tag =
      ⟨withTags unit doc [tag], (annotated unit doc [tag]).findings⟩ := by
  obtain ⟨kind, name, description⟩ := tag
  apply Diagnosed.ext
  · cases kind <;>
      simp [addTag, withTags, annotated, Tag.ofKind, ParamTree.annotateAll]
  · cases kind <;>
      simp [addTag, annotated, Tag.ofKind, ParamTree.annotateAll]

/-! ## All tags -/

theorem annotated_withTags (unit : String) (doc : DocComment)
    (first second : List Tag) :
    (annotated unit (withTags unit doc first) second).value =
        (annotated unit doc (first ++ second)).value ∧
      (annotated unit doc first).findings ++
          (annotated unit (withTags unit doc first) second).findings =
        (annotated unit doc (first ++ second)).findings := by
  simp only [annotated, withTags, Tag.ofKind_append, List.map_append,
    ParamTree.value_annotateAll_append, ParamTree.findings_annotateAll_append,
    and_self]

theorem withTags_append (unit : String) (doc : DocComment)
    (first second : List Tag) :
    withTags unit (withTags unit doc first) second =
      withTags unit doc (first ++ second) := by
  have params := (annotated_withTags unit doc first second).1
  rw [withTags, params, withTags, withTags]
  simp only [Tag.ofKind_append, List.map_append, List.append_assoc,
    List.getLast?_append, Option.map_or, Option.or_assoc]

/-- A run over tags gives each part from the tags of its kind, and the findings
of the annotations. -/
theorem addTags_eq (unit : String) (doc : DocComment) (tags : List Tag) :
    addTags unit doc tags =
      ⟨withTags unit doc tags, (annotated unit doc tags).findings⟩ := by
  induction tags generalizing doc with
  | nil =>
      apply Diagnosed.ext
      · simp [addTags, withTags, annotated, Tag.ofKind, ParamTree.annotateAll]
      · simp [addTags, annotated, Tag.ofKind, ParamTree.annotateAll]
  | cons tag rest ih =>
      have findings := (annotated_withTags unit doc [tag] rest).2
      have together := withTags_append unit doc [tag] rest
      apply Diagnosed.ext
      · rw [addTags, Diagnosed.value_bind, addTag_eq, ih]
        exact together
      · rw [addTags, Diagnosed.findings_bind, addTag_eq, ih]
        exact findings

theorem ofTags_eq_addTags (unit description : String) (tags : List Tag) :
    ofTags unit description tags = addTags unit { description } tags := by
  rw [addTags_eq]
  apply Diagnosed.ext
  · simp [ofTags, withTags, annotated]
  · simp [ofTags, annotated]

/-- A run does not depend on the order of tags of different kinds, nor on tags
of unknown kinds. -/
theorem addTags_congr (unit : String) (doc : DocComment)
    {first second : List Tag}
    (same : ∀ kind ∈ TagKind.known,
      Tag.ofKind kind first = Tag.ofKind kind second) :
    addTags unit doc first = addTags unit doc second := by
  have params : annotated unit doc first = annotated unit doc second := by
    rw [annotated, annotated, same .param (by decide)]
  have parts : withTags unit doc first = withTags unit doc second := by
    rw [withTags, withTags, params, same .author (by decide),
      same .group (by decide), same .returns (by decide),
      same .table (by decide), same .description (by decide),
      same .todo (by decide)]
  rw [addTags_eq, addTags_eq, parts, params]

theorem findings_addTag {tag : Tag} (other : tag.kind ≠ .param) (unit : String)
    (doc : DocComment) : (addTag unit doc tag).findings = [] := by
  have none : Tag.ofKind .param [tag] = [] :=
    List.filter_eq_nil_iff.mpr (by simpa using other)
  rw [addTag_eq, annotated, none]
  rfl

/-- Two lists of tags with the same tags of each known kind, in the same order,
give the same documentation and the same findings.  The documentation is that of
a run over the tags one after the other, with an element for each tag of the
kind of a list, the last author and group, and the annotations of the parameter
tags, to which all findings belong. -/
theorem ofTags_kinds (unit description : String) {first second : List Tag}
    (same : ∀ kind ∈ TagKind.known,
      Tag.ofKind kind first = Tag.ofKind kind second) :
    let read := ofTags unit description first
    let params := ParamTree.annotateAll unit []
      ((Tag.ofKind .param first).map Tag.pathText)
    read = addTags unit { description } first ∧
      read = addTags unit { description } second ∧
      read = ofTags unit description second ∧
      read.value =
        { description
          params := params.value
          author := (Tag.ofKind .author first).getLast?.map Tag.author
          group := (Tag.ofKind .group first).getLast?.map Tag.body
          returns := (Tag.ofKind .returns first).map Tag.returnEntry
          tables := (Tag.ofKind .table first).map Tag.item
          notes := (Tag.ofKind .description first).map Tag.description
          todos := (Tag.ofKind .todo first).map Tag.item } ∧
      read.findings = params.findings ∧
      ∀ tag ∈ first, tag.kind ≠ .param →
        ∀ doc, (addTag unit doc tag).findings = [] := by
  intro read params
  have run : read = addTags unit { description } first :=
    ofTags_eq_addTags unit description first
  have other : read = addTags unit { description } second :=
    run.trans (addTags_congr unit _ same)
  refine ⟨run, other, other.trans (ofTags_eq_addTags ..).symm, ?_, ?_, ?_⟩
  · rw [run, addTags_eq]
    simp [withTags, annotated, params]
  · rw [run, addTags_eq]
    rfl
  · intro tag _ kind doc
    exact findings_addTag kind unit doc

/-- Tags of five kinds in another order, with other unknown tags among them. -/
theorem ofTags_kinds_pay :
    let id : Tag := ⟨.param, "id", "Number."⟩
    let again : Tag := ⟨.param, "id", "Order."⟩
    let ann : Tag := ⟨.author, "ann", ""⟩
    let bob : Tag := ⟨.author, "", "bob"⟩
    let ok : Tag := ⟨.returns, "ok", ""⟩
    let note : Tag := ⟨.description, "", "Once a day."⟩
    let table : Tag := ⟨.table, "main/orders", ""⟩
    let first := [id, ann, ⟨.other "since", "1.2", ""⟩, again, ok, bob, note,
      table]
    let second := [table, ann, note, ok, bob, id, again, ⟨.other "see", "x", ""⟩]
    (∀ kind ∈ TagKind.known,
        Tag.ofKind kind first = Tag.ofKind kind second) ∧
      ofTags "pay" "Pay." first = ofTags "pay" "Pay." second ∧
      (ofTags "pay" "Pay." first).value.author = some "bob" ∧
      (ofTags "pay" "Pay." first).value.returns = [⟨"", "ok"⟩] ∧
      (ofTags "pay" "Pay." first).findings = [.annotatedTwice "id" "pay"] := by
  intro id again ann bob ok note table first second
  have same : ∀ kind ∈ TagKind.known,
      Tag.ofKind kind first = Tag.ofKind kind second := by
    decide +kernel
  obtain ⟨_, _, alike, parts, found, _⟩ :=
    ofTags_kinds "pay" "Pay." same
  exact ⟨same, alike, by rw [parts]; decide +kernel,
    by rw [parts]; decide +kernel, found.trans (by decide +kernel)⟩

end DocComment

end TagDoc
