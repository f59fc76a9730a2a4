import TagDoc.Proofs.IndexFindings
import TagDoc.Proofs.PageTables

/-!
# The tables of an index page

An index page has a table for each canonical group that has entries, as often
as the group is canonical.  A table lists the entries of its group, sorted by
name, where entries of one name keep their order.  An entry of another group is
in no table, and one finding names it.  The order of entries with different
names does not matter to the page.
-/

namespace TagDoc

namespace IndexPage

/-! ## The rows of one table -/

/-- The rows are the entries of a group, sorted by name.  Entries of one name
keep their order. -/
structure SortsGroup (group : String) (entries rows : List IndexEntry) :
    Prop where
  perm : rows.Perm (entries.filter fun entry => entry.group = group)
  sorted : rows.Pairwise fun first second => first.name ≤ second.name
  stable : ∀ name, (rows.filter fun row => row.name = name) =
    entries.filter fun entry => entry.group = group ∧ entry.name = name

/-- The comparison that sorts the rows of a table. -/
def notAfter (first second : IndexEntry) : Bool :=
  !(second.name < first.name)

theorem notAfter_iff {first second : IndexEntry} :
    notAfter first second = true ↔ first.name ≤ second.name := by
  rw [notAfter, Bool.not_eq_true', decide_eq_false_iff_not, String.not_lt]

theorem notAfter_trans (first second third : IndexEntry)
    (before : notAfter first second = true)
    (after : notAfter second third = true) : notAfter first third = true := by
  rw [notAfter_iff] at *
  exact String.le_trans before after

theorem notAfter_total (first second : IndexEntry) :
    (notAfter first second || notAfter second first) = true := by
  rw [Bool.or_eq_true, notAfter_iff, notAfter_iff]
  exact String.le_total _ _

theorem members_eq_mergeSort (group : String) (entries : List IndexEntry) :
    members group entries =
      (entries.filter fun entry => entry.group = group).mergeSort notAfter :=
  rfl

theorem sorted_members (group : String) (entries : List IndexEntry) :
    (members group entries).Pairwise fun first second =>
      first.name ≤ second.name := by
  rw [members_eq_mergeSort]
  apply (List.pairwise_mergeSort notAfter_trans notAfter_total _).imp
  intro first second ordered
  exact notAfter_iff.mp ordered

/-- Entries of one name are sorted already, so that sorting keeps them in
order. -/
theorem stable_members (group name : String) (entries : List IndexEntry) :
    ((members group entries).filter fun row => row.name = name) =
      entries.filter fun entry => entry.group = group ∧ entry.name = name := by
  let named := entries.filter fun entry =>
    entry.group = group ∧ entry.name = name
  have split : named = (entries.filter fun entry =>
      entry.group = group).filter fun entry => entry.name = name := by
    rw [List.filter_filter]
    apply List.filter_congr
    intro entry _
    rw [Bool.decide_and, Bool.and_comm]
  have level : named.Pairwise fun first second =>
      notAfter first second = true := by
    apply List.pairwise_of_forall_mem_list
    intro first here second there
    have one := (of_decide_eq_true (List.mem_filter.mp here).2).2
    have other := (of_decide_eq_true (List.mem_filter.mp there).2).2
    have same : first.name = second.name := one.trans other.symm
    exact notAfter_iff.mpr (same ▸ String.le_refl first.name)
  have part : named.Sublist
      (entries.filter fun entry => entry.group = group) := by
    rw [split]
    exact List.filter_sublist
  have kept : named.Sublist (members group entries) :=
    List.sublist_mergeSort notAfter_trans notAfter_total level part
  have inside : named.Sublist
      ((members group entries).filter fun row => row.name = name) := by
    have again : (named.filter fun row => row.name = name) = named := by
      rw [split, List.filter_filter]
      simp
    rw [← again]
    exact kept.filter _
  have sameLength := ((members_perm group entries).filter fun row =>
    row.name = name).length_eq
  rw [← split] at sameLength
  exact (inside.eq_of_length sameLength.symm).symm

theorem sortsGroup_members (group : String) (entries : List IndexEntry) :
    SortsGroup group entries (members group entries) where
  perm := members_perm group entries
  sorted := sorted_members group entries
  stable := fun name => stable_members group name entries

theorem members_congr {entries others : List IndexEntry}
    (same : others.Perm entries)
    (distinct : (entries.map IndexEntry.name).Nodup) (group : String) :
    members group others = members group entries := by
  have perm : (members group others).Perm (members group entries) :=
    (members_perm group others).trans
      ((same.filter _).trans (members_perm group entries).symm)
  refine List.Perm.eq_of_pairwise ?_ (sorted_members group others)
    (sorted_members group entries) perm
  intro first second here there before after
  have one := List.mem_of_mem_filter
    ((members_perm group others).mem_iff.mp here)
  have other := List.mem_of_mem_filter
    ((members_perm group entries).mem_iff.mp there)
  exact List.inj_on_of_nodup_map distinct (same.mem_iff.mp one) other
    (String.le_antisymm before after)

/-! ## All tables -/

/-- A table of entries under the heading of its group. -/
def tableSection (nameHeader : String) (table : String × List IndexEntry) :
    Section :=
  ⟨3, some table.1, (groupTable nameHeader table.2).markdown⟩

def hasEntries (entries : List IndexEntry) (group : String) : Bool :=
  entries.any fun entry => entry.group = group

/-- The groups that have a table, each with its rows. -/
def tables (groups : List String) (entries : List IndexEntry) :
    List (String × List IndexEntry) :=
  (groups.filter (hasEntries entries)).map fun group =>
    (group, members group entries)

theorem isEmpty_members (group : String) (entries : List IndexEntry) :
    (members group entries).isEmpty = !hasEntries entries group := by
  rw [(members_perm group entries).isEmpty_eq, Bool.eq_iff_iff,
    List.isEmpty_iff, List.filter_eq_nil_iff, Bool.not_eq_true', hasEntries,
    List.any_eq_false]

theorem filterMap_groupSection (nameHeader : String) (groups : List String)
    (entries : List IndexEntry) :
    groups.filterMap (groupSection nameHeader entries) =
      (tables groups entries).map (tableSection nameHeader) := by
  rw [tables, List.map_map, ← List.filterMap_eq_map, List.filterMap_filter]
  apply List.filterMap_congr
  intro group _
  rw [groupSection_eq, isEmpty_members]
  cases hasEntries entries group with
  | true => rfl
  | false => rfl

theorem count_members (group : String) (entries : List IndexEntry)
    (entry : IndexEntry) :
    (members group entries).count entry =
      if entry.group = group then entries.count entry else 0 := by
  rw [(members_perm group entries).count_eq]
  split
  · next own => exact List.count_filter (decide_eq_true own)
  · next foreign =>
      apply List.count_eq_zero.mpr
      intro member
      exact foreign (of_decide_eq_true (List.mem_filter.mp member).2)

theorem count_tables (groups : List String) (entries : List IndexEntry)
    (entry : IndexEntry) :
    ((tables groups entries).flatMap Prod.snd).count entry =
      groups.count entry.group * entries.count entry := by
  induction groups with
  | nil => simp [tables]
  | cons group rest ih =>
      have step : ((tables (group :: rest) entries).flatMap Prod.snd).count
          entry = (members group entries).count entry +
            ((tables rest entries).flatMap Prod.snd).count entry := by
        rw [tables, List.filter_cons]
        split
        · rw [List.map_cons, List.flatMap_cons, List.count_append, ← tables]
        · next none =>
            have empty := isEmpty_members group entries
            rw [Bool.eq_false_iff.mpr none, Bool.not_false,
              List.isEmpty_iff] at empty
            rw [empty, List.count_nil, Nat.zero_add, ← tables]
      rw [step, ih, count_members, List.count_cons, Nat.add_mul, Nat.add_comm]
      by_cases own : entry.group = group
      · simp [own]
      · simp [own, Ne.symm own]

/-! ## Entries in no table -/

/-- Whether a finding is about the group of an entry and names the entry. -/
def warnsOf (entry : IndexEntry) : Finding → Bool
  | .unindexedGroup group names =>
      group == entry.group && names.contains entry.name
  | _ => false

/-- Exactly one finding names an entry whose group is not canonical. -/
theorem filter_warnsOf {groups : List String} {entries : List IndexEntry}
    {entry : IndexEntry} (member : entry ∈ entries)
    (outside : entry.group ∉ groups) :
    (findings groups entries).filter (warnsOf entry) =
      [.unindexedGroup entry.group (namesIn entry.group entries)] := by
  have named : entry.name ∈ namesIn entry.group entries := by
    apply List.mem_map_of_mem
    exact List.mem_filter.mpr ⟨member, decide_eq_true rfl⟩
  have found : entry.group ∈ groupsOutside groups entries :=
    mem_groupsOutside_iff.mpr ⟨outside, entry, member, rfl⟩
  have once : (groupsOutside groups entries).Nodup := nodup_eraseDups _
  have silent : (sharingFindings entries).filter (warnsOf entry) = [] := by
    apply List.filter_eq_nil_iff.mpr
    intro finding shared
    obtain ⟨_, _, rfl⟩ := List.mem_map.mp shared
    exact Bool.false_ne_true
  have own : (groupsOutside groups entries).filter (fun group =>
      warnsOf entry (.unindexedGroup group (namesIn group entries))) =
        [entry.group] := by
    calc (groupsOutside groups entries).filter _
        = (groupsOutside groups entries).filter (· == entry.group) := by
          apply List.filter_congr
          intro group _
          by_cases same : group = entry.group
          · simp [warnsOf, same, named]
          · simp [warnsOf, same]
      _ = [entry.group] := by
          rw [List.filter_beq,
            List.count_eq_one_of_mem once found, List.replicate_one]
  rw [findings_eq, List.filter_append, silent, List.append_nil,
    outsideFindings, List.filter_map]
  exact congrArg (List.map _) own

end IndexPage

/-- The sections of an index page are tables, one for each canonical group that
has entries, in the order of the groups, and each sorts the entries of its
group.  So an entry is listed as often as its group is canonical.  An entry
whose group is not canonical is in no table and named by one finding about its
group.  The order of entries with different names does not matter. -/
theorem ofIndex_partitions (nameHeader : String) (groups : List String)
    (entries : List IndexEntry) :
    let index := Page.ofIndex nameHeader groups entries
    ∃ tables : List (String × List IndexEntry),
      index.value.sections =
          tables.map (IndexPage.tableSection nameHeader) ∧
        tables.map Prod.fst =
          groups.filter (fun group =>
            entries.any fun entry => entry.group = group) ∧
        (∀ table ∈ tables,
          IndexPage.SortsGroup table.1 entries table.2) ∧
        (∀ entry, (tables.flatMap Prod.snd).count entry =
          groups.count entry.group * entries.count entry) ∧
        (∀ entry ∈ entries, entry.group ∉ groups →
          entry ∉ tables.flatMap Prod.snd ∧
            index.findings.filter (IndexPage.warnsOf entry) =
              [.unindexedGroup entry.group
                (IndexPage.namesIn entry.group entries)]) ∧
        ∀ others, others.Perm entries →
          (entries.map IndexEntry.name).Nodup →
            (Page.ofIndex nameHeader groups others).value = index.value := by
  intro index
  refine ⟨IndexPage.tables groups entries,
    IndexPage.filterMap_groupSection nameHeader groups entries, ?_, ?_,
    IndexPage.count_tables groups entries, ?_, ?_⟩
  · rw [IndexPage.tables, List.map_map]
    exact List.map_id _
  · intro table member
    obtain ⟨group, _, rfl⟩ := List.mem_map.mp member
    exact IndexPage.sortsGroup_members group entries
  · intro entry member outside
    refine ⟨?_, IndexPage.filter_warnsOf member outside⟩
    apply List.count_eq_zero.mp
    rw [IndexPage.count_tables, List.count_eq_zero.mpr outside, Nat.zero_mul]
  · intro others same distinct
    have sections : groups.filterMap
        (IndexPage.groupSection nameHeader others) =
          groups.filterMap (IndexPage.groupSection nameHeader entries) := by
      apply List.filterMap_congr
      intro group _
      rw [IndexPage.groupSection_eq, IndexPage.groupSection_eq,
        IndexPage.members_congr same distinct]
    exact congrArg Page.mk sections

/-- A group that is canonical twice has two tables, in whatever order its entries
come, and the entry of another group is named once. -/
theorem ofIndex_partitions_twice :
    let pay : IndexEntry := ⟨"/pay", "order", "Pay.", "pay.md"⟩
    let list : IndexEntry := ⟨"/list", "order", "List.", "list.md"⟩
    let ping : IndexEntry := ⟨"/ping", "misc", "Ping.", "ping.md"⟩
    let groups := ["order", "user", "order"]
    let entries := [pay, list, ping]
    let index := Page.ofIndex "接口" groups entries
    (ping ∈ entries ∧ ping.group ∉ groups) ∧
      ([ping, list, pay].Perm entries ∧
        (entries.map IndexEntry.name).Nodup) ∧
      index.value.sections.map Section.title = [some "order", some "order"] ∧
      index.findings.filter (IndexPage.warnsOf ping) =
        [.unindexedGroup "misc" ["/ping"]] ∧
      (Page.ofIndex "接口" groups [ping, list, pay]).value = index.value := by
  intro pay list ping groups entries index
  have outside : ping ∈ entries ∧ ping.group ∉ groups := by decide
  have turned : [ping, list, pay].Perm entries := by decide
  have distinct : (entries.map IndexEntry.name).Nodup := by decide
  obtain ⟨tables, sections, titles, _, _, unlisted, ordered⟩ :=
    ofIndex_partitions "接口" groups entries
  refine ⟨outside, ⟨turned, distinct⟩, ?_,
    (unlisted ping outside.1 outside.2).2, ordered _ turned distinct⟩
  have shown : tables.map Prod.fst = ["order", "order"] :=
    titles.trans (by decide)
  have headed : index.value.sections.map Section.title =
      (tables.map Prod.fst).map some := by
    rw [sections, List.map_map, List.map_map]
    rfl
  rw [headed, shown]
  rfl

end TagDoc
