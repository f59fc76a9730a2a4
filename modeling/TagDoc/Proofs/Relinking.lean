import TagDoc.Proofs.TableLinks

/-!
# Route pages against different page indexes

The page index reaches a route page only through the items of its table
references, and it reaches the findings not at all.  Two indexes that differ on
some keys only therefore give pages that differ at most in the items of
references to these keys: `sameButLinks_routePage`.
-/

namespace TagDoc

/-- A reference names a table whose page has a key with a property. -/
def NamesKey (config : Config) (touched : String → Prop)
    (reference : String) : Prop :=
  ∃ database table settings,
    NamesTable reference database table ∧
      Assoc.get? database config.db = some settings ∧
      touched (pageKey settings.path table)

/-- An item shows a reference, as a link or as plain text. -/
def IsReferenceItem (reference item : String) : Prop :=
  item = plainItem reference ∨ ∃ url, item = linkItem reference url

/-- Two items of one reference, which are the same unless the reference names a
touched page. -/
structure Relinked (config : Config) (touched : String → Prop)
    (reference : String) (items : String × String) : Prop where
  first : IsReferenceItem reference items.1
  second : IsReferenceItem reference items.2
  named : items.1 ≠ items.2 → NamesKey config touched reference

/-- The section of the tables of a route. -/
def tableSection (items : List String) : Section :=
  (Section.titled 2 "操作的数据表").lines items

/-- Two texts are the same, or differ only in items of their table sections
whose references name touched pages. -/
def SameButLinks (config : Config) (touched : String → Prop)
    (first second : String) : Prop :=
  first = second ∨
    ∃ opening closing references items,
      List.Forall₂ (Relinked config touched) references items ∧
        first = opening ++ (tableSection (items.map Prod.fst)).markdown ++
          closing ∧
        second = opening ++ (tableSection (items.map Prod.snd)).markdown ++
          closing

section Touched

variable {config : Config} {touched : String → Prop}

theorem SameButLinks.refl (text : String) :
    SameButLinks config touched text text := .inl rfl

theorem SameButLinks.eq {first second : String}
    (same : SameButLinks config touched first second)
    (untouched : ∀ key, ¬ touched key) : first = second := by
  rcases same with equal | ⟨opening, closing, references, items, each, rfl, rfl⟩
  · exact equal
  · have items_eq : items.map Prod.fst = items.map Prod.snd := by
      induction each with
      | nil => rfl
      | @cons reference pair _ _ relinked _ ih =>
          have same : pair.1 = pair.2 := by
            by_contra different
            obtain ⟨_, _, _, _, _, key⟩ := relinked.named different
            exact untouched _ key
          rw [List.map_cons, List.map_cons, same, ih]
    rw [items_eq]

end Touched

namespace RoutePage

section Indexes

variable {config : Config} {touched : String → Prop}
  {first second : PageIndex}
  (agree : ∀ key, ¬ touched key → Assoc.get? key first = Assoc.get? key second)

include agree

theorem tableItem_congr {reference : String} (unit : String)
    (untouched : ¬ NamesKey config touched reference) :
    tableItem config first unit reference =
      tableItem config second unit reference := by
  unfold tableItem
  cases split : tableReference? reference with
  | none => rfl
  | some parts =>
      obtain ⟨database, table⟩ := parts
      have names := tableReference?_eq_some.mp split
      have same : tableUrl? config first database table =
          tableUrl? config second database table := by
        unfold tableUrl? Config.dbPath?
        cases configured : Assoc.get? database config.db with
        | none => rfl
        | some settings =>
            apply agree
            intro key
            exact untouched ⟨database, table, settings, names, configured, key⟩
      simp only [same]

theorem relinked_tableItem (unit reference : String) :
    Relinked config touched reference
      ((tableItem config first unit reference).value,
        (tableItem config second unit reference).value) := by
  have shown (pages : PageIndex) : IsReferenceItem reference
      (tableItem config pages unit reference).value := by
    rcases showsReference_tableItem config pages unit reference with
      ⟨url, _, link⟩ | ⟨_, plain⟩
    · exact .inr ⟨url, link⟩
    · exact .inl plain
  refine ⟨shown first, shown second, ?_⟩
  intro different
  by_contra untouched
  exact different
    (congrArg Diagnosed.value (tableItem_congr agree unit untouched))

end Indexes

theorem value_tableItems (config : Config) (pages : PageIndex) (unit : String)
    (references : List String) :
    (tableItems config pages unit references).value =
      references.map fun reference =>
        (tableItem config pages unit reference).value := by
  induction references with
  | nil => rfl
  | cons reference rest ih => simp [tableItems, ih]

end RoutePage

/-- The sections of a route page before its tables and after them, which do not
depend on the page index. -/
theorem exists_markdown_routePage (config : Config) (unit : String)
    (doc : DocComment) (route : Route) :
    ∃ opening closing, ∀ pages,
      (routePage config pages unit doc route).value.markdown =
        opening ++ String.join ((RoutePage.tables config pages unit
          doc.tables).value.toList.map Section.markdown) ++ closing := by
  let resolved := (resolveParams unit doc route.params).value
  let before := (RoutePage.description doc.description).toList ++
    [RoutePage.baseInfo route] ++
    (RoutePage.parameters config unit doc route resolved).value.toList ++
    [(RoutePage.returns unit doc.returns).value] ++
    (bulletSection "补充说明" doc.notes).toList
  let after := (bulletSection "未完成事项" doc.todos).toList
  refine ⟨String.join (before.map Section.markdown),
    String.join (after.map Section.markdown), fun pages => ?_⟩
  have sections : (routePage config pages unit doc route).value.sections =
      before ++ (RoutePage.tables config pages unit doc.tables).value.toList ++
        after := rfl
  rw [Page.markdown, sections, List.map_append, List.map_append,
    String.join_append, String.join_append]

/-- The page of a route depends on the page index only through the items of its
table references. -/
theorem sameButLinks_routePage {config : Config} {touched : String → Prop}
    {first second : PageIndex}
    (agree : ∀ key, ¬ touched key →
      Assoc.get? key first = Assoc.get? key second)
    (unit : String) (doc : DocComment) (route : Route) :
    SameButLinks config touched
      (routePage config first unit doc route).value.markdown
      (routePage config second unit doc route).value.markdown := by
  obtain ⟨opening, closing, spelled⟩ :=
    exists_markdown_routePage config unit doc route
  rw [spelled, spelled, RoutePage.value_tables, RoutePage.value_tables,
    RoutePage.value_tableItems, RoutePage.value_tableItems]
  cases references : doc.tables with
  | nil => exact .inl rfl
  | cons reference rest =>
      let item (pages : PageIndex) (reference : String) : String :=
        (RoutePage.tableItem config pages unit reference).value
      refine .inr ⟨opening, closing, reference :: rest,
        (reference :: rest).map fun reference =>
          (item first reference, item second reference), ?_, ?_, ?_⟩
      · refine List.forall₂_map_right_iff.mpr
          (List.forall₂_same.mpr fun reference _ => ?_)
        exact RoutePage.relinked_tableItem agree unit reference
      · simp [tableSection, item, Function.comp_def]
      · simp [tableSection, item, Function.comp_def]

theorem findings_routePage_congr (config : Config) (first second : PageIndex)
    (unit : String) (doc : DocComment) (route : Route) :
    (routePage config first unit doc route).findings =
      (routePage config second unit doc route).findings := by
  rw [findings_routePage, findings_routePage, RoutePage.findings_tables,
    RoutePage.findings_tables]

end TagDoc
