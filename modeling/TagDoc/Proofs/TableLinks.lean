import Mathlib.Data.List.Forall2
import TagDoc.Proofs.FilePath
import TagDoc.Proofs.FindingForms

/-!
# Table references on route pages

A reference names a table if it is a database and a table around one slash.
It is shown as a link exactly when that database is configured and the page
index has the table's page, and otherwise verbatim; references that name no
table are reported.
-/

namespace TagDoc

open FilePath (Plain)

/-- A reference is made of a database and a table, neither of which is empty
or has a slash. -/
structure NamesTable (reference database table : String) : Prop where
  spelled : reference = database ++ "/" ++ table
  database : Plain database ∧ database ≠ ""
  table : Plain table ∧ table ≠ ""

/-- The page index has a page for the table that a reference names. -/
def LinksTo (config : Config) (pages : PageIndex) (reference url : String) :
    Prop :=
  ∃ database table settings,
    NamesTable reference database table ∧
      Assoc.get? database config.db = some settings ∧
      Assoc.get? (pageKey settings.path table) pages = some url

/-- A reference as a link. -/
def linkItem (reference url : String) : String :=
  "* [" ++ reference ++ "](" ++ url ++ ")"

/-- A reference as plain text. -/
def plainItem (reference : String) : String :=
  "* " ++ reference

/-- An item shows its reference: as a link where there is a page, verbatim
otherwise. -/
def ShowsReference (config : Config) (pages : PageIndex)
    (reference item : String) : Prop :=
  (∃ url, LinksTo config pages reference url ∧
    item = linkItem reference url) ∨
  (¬ ∃ url, LinksTo config pages reference url) ∧ item = plainItem reference

/-! ## References -/

namespace RoutePage

theorem tableReference?_eq_some {reference database table : String} :
    tableReference? reference = some (database, table) ↔
      NamesTable reference database table := by
  constructor
  · intro split
    unfold tableReference? at split
    split at split
    · next first second parts =>
        split at split
        · cases split
        · next named =>
            cases split
            have whole := FilePath.eq_intercalate_segments reference
            have plain {segment : String}
                (member : segment ∈ FilePath.segments reference) :
                Plain segment := FilePath.plain_of_mem_segments member
            rw [parts] at whole plain
            simp only [Bool.or_eq_true, String.isEmpty_iff, not_or] at named
            refine ⟨?_, ⟨plain (by simp), named.1⟩, ⟨plain (by simp), named.2⟩⟩
            simpa using whole.symm
    · cases split
  · intro names
    obtain ⟨rfl, ⟨plain, named⟩, alone, also⟩ := names
    have parts : FilePath.segments (database ++ "/" ++ table) =
        [database, table] := by
      rw [FilePath.segments_slash, FilePath.segments_of_plain plain,
        FilePath.segments_of_plain alone]
      rfl
    simp [tableReference?, parts, named, also]

theorem tableReference?_isNone {reference : String} :
    (tableReference? reference).isNone ↔
      ¬ ∃ database table, NamesTable reference database table := by
  rw [Option.isNone_iff_eq_none]
  constructor
  · intro absent named
    obtain ⟨database, table, names⟩ := named
    rw [tableReference?_eq_some.mpr names] at absent
    cases absent
  · intro nameless
    cases split : tableReference? reference with
    | none => rfl
    | some parts =>
        exact (nameless ⟨_, _, tableReference?_eq_some.mp split⟩).elim

instance (reference : String) :
    Decidable (∃ database table, NamesTable reference database table) :=
  decidable_of_iff (¬ (tableReference? reference).isNone)
    (by rw [tableReference?_isNone, not_not])

/-! ## Items -/

variable {config : Config} {pages : PageIndex} {unit reference url : String}

theorem linksTo_iff {database table : String}
    (names : NamesTable reference database table) :
    LinksTo config pages reference url ↔
      tableUrl? config pages database table = some url := by
  have split := tableReference?_eq_some.mpr names
  constructor
  · intro links
    obtain ⟨otherDatabase, otherTable, settings, also, configured, listed⟩ := links
    have same := split.symm.trans (tableReference?_eq_some.mpr also)
    cases same
    simp [tableUrl?, Config.dbPath?, configured, listed]
  · intro found
    obtain ⟨path, known, listed⟩ := Option.bind_eq_some_iff.mp found
    obtain ⟨settings, configured, rfl⟩ := Option.map_eq_some_iff.mp known
    exact ⟨database, table, settings, names, configured, listed⟩

theorem showsReference_tableItem (config : Config) (pages : PageIndex)
    (unit reference : String) :
    ShowsReference config pages reference
      (tableItem config pages unit reference).value := by
  unfold tableItem
  cases split : tableReference? reference with
  | none =>
      have nameless := tableReference?_isNone.mp (by rw [split]; rfl)
      refine .inr ⟨?_, rfl⟩
      intro linked
      obtain ⟨url, database, table, _, names, _⟩ := linked
      exact nameless ⟨database, table, names⟩
  | some parts =>
      obtain ⟨database, table⟩ := parts
      have names := tableReference?_eq_some.mp split
      dsimp only
      cases found : tableUrl? config pages database table with
      | some url => exact .inl ⟨url, (linksTo_iff names).mpr found, rfl⟩
      | none =>
          refine .inr ⟨?_, rfl⟩
          intro linked
          obtain ⟨url, links⟩ := linked
          rw [(linksTo_iff names).mp links] at found
          cases found

theorem showsReference_tableItems (config : Config) (pages : PageIndex)
    (unit : String) (references : List String) :
    List.Forall₂ (ShowsReference config pages) references
      (tableItems config pages unit references).value := by
  induction references with
  | nil => exact .nil
  | cons reference rest ih =>
      exact .cons (showsReference_tableItem config pages unit reference) ih

theorem value_tables (config : Config) (pages : PageIndex) (unit : String)
    (references : List String) :
    (tables config pages unit references).value =
      if (tableItems config pages unit references).value.isEmpty then none
      else some ((Section.titled 2 "操作的数据表").lines
        (tableItems config pages unit references).value) := by
  cases references with
  | nil => rfl
  | cons reference rest => rfl

theorem findings_tables_eq (config : Config) (pages : PageIndex)
    (unit : String) (references : List String) :
    (tables config pages unit references).findings =
      (references.filter fun reference =>
        ¬ ∃ database table, NamesTable reference database table).map
          (.malformedTableReference · unit) := by
  rw [findings_tables]
  simp only [← tableReference?_isNone, Bool.decide_eq_true]

end RoutePage

/-- Whether a finding is about a reference that names no table. -/
def Finding.isMalformedReference : Finding → Bool
  | .malformedTableReference .. => true
  | _ => false

theorem filter_tables (config : Config) (pages : PageIndex) (unit : String)
    (references : List String) :
    (RoutePage.tables config pages unit references).findings.filter
        Finding.isMalformedReference =
      (references.filter fun reference =>
        ¬ ∃ database table, NamesTable reference database table).map
          (.malformedTableReference · unit) := by
  rw [RoutePage.findings_tables_eq, List.filter_map, List.filter_eq_self.mpr]
  intro reference _
  rfl

/-- Every reference that names no table is reported once, in order. -/
theorem malformedReferences_routePage (config : Config) (pages : PageIndex)
    (unit : String) (doc : DocComment) (route : Route) :
    (routePage config pages unit doc route).findings.filter
        Finding.isMalformedReference =
      (doc.tables.filter fun reference =>
        ¬ ∃ database table, NamesTable reference database table).map
          (.malformedTableReference · unit) := by
  have params : (resolveParams unit doc route.params).findings.filter
      Finding.isMalformedReference = [] := by
    rw [List.filter_eq_nil_iff]
    intro finding member
    obtain ⟨path, rfl | rfl⟩ := mem_findings_resolveParams member <;>
      exact Bool.false_ne_true
  have rows : (RoutePage.parameters config unit doc route
      (resolveParams unit doc route.params).value).findings.filter
      Finding.isMalformedReference = [] := by
    rw [List.filter_eq_nil_iff]
    intro finding member
    obtain ⟨name, rfl | rfl⟩ := RoutePage.mem_findings_parameters member <;>
      exact Bool.false_ne_true
  have results : (RoutePage.returns unit doc.returns).findings.filter
      Finding.isMalformedReference = [] := by
    rw [RoutePage.findings_returns]
    split <;> rfl
  rw [findings_routePage, List.filter_append, List.filter_append,
    List.filter_append, params, rows, results, filter_tables]
  rfl

end TagDoc
