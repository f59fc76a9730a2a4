import TagDoc.Proofs.Collector
import TagDoc.Proofs.Grouping

/-!
# What an index page reports

An index page reports two things.  A group outside the canonical list is
reported once, with the names of all its entries.  A description is reported
once if entries of different names share it, with each of these names once.
Both kinds of findings come in the order of the first entry that they are
about, and there are no others.
-/

namespace TagDoc

theorem one_lt_length_eraseDups_iff {α : Type} [BEq α] [LawfulBEq α]
    {items : List α} :
    1 < items.eraseDups.length ↔
      ∃ first ∈ items, ∃ second ∈ items, first ≠ second := by
  have distinct := nodup_eraseDups items
  have same (item : α) : item ∈ items ↔ item ∈ items.eraseDups :=
    List.mem_eraseDups.symm
  simp only [same]
  generalize items.eraseDups = kept at distinct
  cases kept with
  | nil => simp
  | cons first rest =>
      cases rest with
      | nil =>
          constructor
          · intro several
            exact (Nat.lt_irrefl 1 several).elim
          · rintro ⟨one, here, other, there, different⟩
            rw [List.mem_singleton] at here there
            exact (different (here.trans there.symm)).elim
      | cons second rest =>
          have apart := (List.nodup_cons.mp distinct).1
          constructor
          · intro _
            refine ⟨first, List.mem_cons_self, second, ?_, ?_⟩
            · exact List.mem_cons_of_mem _ List.mem_cons_self
            · rintro rfl
              exact apart List.mem_cons_self
          · intro _
            exact Nat.succ_lt_succ (Nat.succ_pos rest.length)

namespace IndexPage

/-! ## Groups outside the canonical list -/

/-- The names of the entries of a group. -/
def namesIn (group : String) (entries : List IndexEntry) : List String :=
  (entries.filter fun entry => entry.group = group).map IndexEntry.name

/-- The groups of entries that are not canonical, in the order of the first
entry in each. -/
def groupsOutside (groups : List String) (entries : List IndexEntry) :
    List String :=
  ((entries.map IndexEntry.group).filter fun group => group ∉ groups).eraseDups

theorem mem_groupsOutside_iff {groups : List String}
    {entries : List IndexEntry} {group : String} :
    group ∈ groupsOutside groups entries ↔
      group ∉ groups ∧ ∃ entry ∈ entries, entry.group = group := by
  rw [groupsOutside, List.mem_eraseDups, List.mem_filter, List.mem_map,
    decide_eq_true_iff, and_comm]

theorem unindexed_eq (groups : List String) (entries : List IndexEntry) :
    unindexed groups entries =
      (groupsOutside groups entries).map fun group =>
        (group, namesIn group entries) := by
  have collected : unindexed groups entries =
      (entries.filter fun entry => entry.group ∉ groups).foldl
        (fun names entry =>
          Assoc.alter entry.group [] (fun known => known ++ [entry.name])
            names) [] := by
    rw [List.foldl_filter, unindexed]
    congr 1
    funext names entry
    by_cases canonical : entry.group ∈ groups
    · simp [canonical]
    · simp [canonical]
  have outside : (entries.filter fun entry => entry.group ∉ groups).map
      IndexEntry.group =
        (entries.map IndexEntry.group).filter fun group => group ∉ groups := by
    rw [List.filter_map]
    rfl
  rw [collected, Assoc.foldl_alter_eq IndexEntry.group []
    fun known (entry : IndexEntry) => known ++ [entry.name], outside,
    ← groupsOutside]
  refine List.map_congr_left fun group member => ?_
  have foreign : group ∉ groups := (mem_groupsOutside_iff.mp member).1
  rw [List.foldl_append_eq_append, List.nil_append, ← List.flatMap_def,
    ← List.map_eq_flatMap, List.filter_filter, namesIn]
  congr 2
  refine List.filter_congr fun entry _ => ?_
  by_cases same : entry.group = group
  · simp [same, foreign]
  · simp [same]

/-! ## Shared descriptions -/

/-- Entries of different names have the description, which is not empty. -/
def SharedByNames (entries : List IndexEntry) (description : String) : Prop :=
  description ≠ "" ∧
    ∃ first ∈ entries, ∃ second ∈ entries,
      first.description = description ∧ second.description = description ∧
        first.name ≠ second.name

instance (entries : List IndexEntry) (description : String) :
    Decidable (SharedByNames entries description) :=
  inferInstanceAs (Decidable (_ ∧ _))

/-- The different names of the entries with a description, in the order of the
first entry with each. -/
def namesSharing (description : String) (entries : List IndexEntry) :
    List String :=
  ((described description entries).map IndexEntry.name).eraseDups

/-- The descriptions that entries of different names share, in the order of the
first entry with each. -/
def sharedTexts (entries : List IndexEntry) : List String :=
  (descriptions entries).filter fun description =>
    SharedByNames entries description

theorem sharedByNames_iff {entries : List IndexEntry} {description : String} :
    SharedByNames entries description ↔
      description ≠ "" ∧ 1 < (namesSharing description entries).length := by
  rw [namesSharing, one_lt_length_eraseDups_iff, SharedByNames]
  apply and_congr_right
  intro _
  constructor
  · rintro ⟨first, here, second, there, one, other, different⟩
    refine ⟨first.name, List.mem_map_of_mem ?_, second.name,
      List.mem_map_of_mem ?_, different⟩
    · exact List.mem_filter.mpr ⟨here, decide_eq_true one⟩
    · exact List.mem_filter.mpr ⟨there, decide_eq_true other⟩
  · rintro ⟨_, here, _, there, different⟩
    obtain ⟨first, one, rfl⟩ := List.mem_map.mp here
    obtain ⟨second, other, rfl⟩ := List.mem_map.mp there
    obtain ⟨inFirst, firstText⟩ := List.mem_filter.mp one
    obtain ⟨inSecond, secondText⟩ := List.mem_filter.mp other
    exact ⟨first, inFirst, second, inSecond, of_decide_eq_true firstText,
      of_decide_eq_true secondText, different⟩

theorem mem_descriptions_iff {entries : List IndexEntry}
    {description : String} :
    description ∈ descriptions entries ↔
      description ≠ "" ∧
        ∃ entry ∈ entries, entry.description = description := by
  rw [descriptions, List.mem_eraseDups, List.mem_filter, List.mem_map,
    decide_eq_true_iff, and_comm]

theorem mem_sharedTexts_iff {entries : List IndexEntry}
    {description : String} :
    description ∈ sharedTexts entries ↔
      SharedByNames entries description := by
  rw [sharedTexts, List.mem_filter, decide_eq_true_iff, and_iff_right_iff_imp]
  rintro ⟨present, entry, member, _, _, same, _⟩
  exact mem_descriptions_iff.mpr ⟨present, entry, member, same⟩

theorem sharedByNames_iff_of_mem {entries : List IndexEntry}
    {description : String} (member : description ∈ descriptions entries) :
    SharedByNames entries description ↔
      1 < (namesSharing description entries).length :=
  sharedByNames_iff.trans (and_iff_right (mem_descriptions_iff.mp member).1)

/-! ## All findings -/

/-- The findings about groups outside the canonical list. -/
def outsideFindings (groups : List String) (entries : List IndexEntry) :
    List Finding :=
  (groupsOutside groups entries).map fun group =>
    .unindexedGroup group (namesIn group entries)

/-- The findings about shared descriptions. -/
def sharingFindings (entries : List IndexEntry) : List Finding :=
  (sharedTexts entries).map fun description =>
    .sharedDescription description (namesSharing description entries)

theorem sharingFindings_eq (entries : List IndexEntry) :
    sharingFindings entries =
      (descriptions entries).filterMap fun description =>
        if SharedByNames entries description then
          some (.sharedDescription description
            (namesSharing description entries))
        else none := by
  rw [sharingFindings, sharedTexts, ← List.filterMap_eq_map,
    List.filterMap_filter]
  simp only [decide_eq_true_eq, Function.comp_def]

theorem findings_eq (groups : List String) (entries : List IndexEntry) :
    findings groups entries =
      outsideFindings groups entries ++ sharingFindings entries := by
  rw [findings, unindexed_eq, namesByDescription_eq, List.map_map,
    List.filterMap_map, sharingFindings_eq]
  refine congrArg (outsideFindings groups entries ++ ·) ?_
  apply List.filterMap_congr
  intro description member
  simp only [sharedByNames_iff_of_mem member]
  rfl

theorem level_outsideFindings {groups : List String}
    {entries : List IndexEntry} {finding : Finding}
    (member : finding ∈ outsideFindings groups entries) :
    finding.level = .warning := by
  obtain ⟨_, _, rfl⟩ := List.mem_map.mp member
  rfl

theorem level_sharingFindings {entries : List IndexEntry} {finding : Finding}
    (member : finding ∈ sharingFindings entries) : finding.level = .error := by
  obtain ⟨_, _, rfl⟩ := List.mem_map.mp member
  rfl

/-- Findings of one level are all kept or all dropped. -/
theorem filter_level_of_forall {findings : List Finding} {own : Level}
    (each : ∀ finding ∈ findings, finding.level = own) (level : Level) :
    findings.filter (fun finding => finding.level = level) =
      if own = level then findings else [] := by
  split
  · next same =>
      apply List.filter_eq_self.mpr
      intro finding member
      exact decide_eq_true ((each finding member).trans same)
  · next other =>
      apply List.filter_eq_nil_iff.mpr
      intro finding member found
      exact other ((each finding member).symm.trans (of_decide_eq_true found))

theorem filter_level_findings (groups : List String)
    (entries : List IndexEntry) (level : Level) :
    (findings groups entries).filter (fun finding => finding.level = level) =
      match level with
      | .error => sharingFindings entries
      | .warning => outsideFindings groups entries
      | .info => [] := by
  rw [findings_eq, List.filter_append,
    filter_level_of_forall (fun _ => level_outsideFindings),
    filter_level_of_forall (fun _ => level_sharingFindings)]
  cases level with
  | error => rfl
  | warning => exact List.append_nil _
  | info => rfl

end IndexPage

/-- An index page reports each group outside the canonical list that an entry
has, with the names of all entries in it, as a warning, and each description
that entries of different names share, with these names, as an error.  Both
come in the order of the first entry that they are about, and nothing else is
collected. -/
theorem ofIndex_reports (nameHeader : String) (groups : List String)
    (entries : List IndexEntry) (held : Diagnostics) :
    let outside := IndexPage.groupsOutside groups entries
    let shared := IndexPage.sharedTexts entries
    let warnings := outside.map fun group =>
      Finding.unindexedGroup group (IndexPage.namesIn group entries)
    let errors := shared.map fun description =>
      Finding.sharedDescription description
        (IndexPage.namesSharing description entries)
    let findings := (Page.ofIndex nameHeader groups entries).findings
    findings = warnings ++ errors ∧
      held.record findings =
        { errors := held.errors ++ shared.map fun description =>
            "* duplicate description \"" ++ description ++ "\": " ++
              String.intercalate ", "
                (IndexPage.namesSharing description entries)
          warnings := held.warnings ++ outside.map fun group =>
            "* unindexed group [" ++ group ++ "]: " ++
              String.intercalate "," (IndexPage.namesIn group entries)
          infos := held.infos } ∧
      outside.Nodup ∧
      (∀ group, group ∈ outside ↔
        group ∉ groups ∧ ∃ entry ∈ entries, entry.group = group) ∧
      shared.Nodup ∧
      ∀ description, description ∈ shared ↔
        IndexPage.SharedByNames entries description := by
  intro outside shared warnings errors findings
  have collected (level : Level) :=
    (Diagnostics.messages_record held findings level).trans
      (congrArg (fun kept => held.messages level ++ kept.map Finding.message)
        (IndexPage.filter_level_findings groups entries level))
  have newErrors : (held.record findings).errors =
      held.errors ++ errors.map Finding.message := collected .error
  have newWarnings : (held.record findings).warnings =
      held.warnings ++ warnings.map Finding.message := collected .warning
  have sameInfos : (held.record findings).infos = held.infos :=
    (collected .info).trans (List.append_nil _)
  refine ⟨IndexPage.findings_eq groups entries, ?_, nodup_eraseDups _,
    fun _ => IndexPage.mem_groupsOutside_iff, (nodup_eraseDups _).filter _,
    fun _ => IndexPage.mem_sharedTexts_iff⟩
  rw [List.map_map] at newErrors newWarnings
  exact Diagnostics.ext newErrors newWarnings sameInfos

end TagDoc
