import TagDoc.Page.Index
import TagDoc.Proofs.Overwriting

/-!
# Collecting items under names

Items that are collected one by one under their names end up with the names in
the order of their first item, and each name has collected its own items, in
order: `Assoc.foldl_alter_eq`.  For the entries of an index this tells which
names share a description: `IndexPage.namesByDescription_eq`.
-/

namespace TagDoc

theorem nodup_eraseDups {α : Type} [BEq α] [LawfulBEq α] (items : List α) :
    items.eraseDups.Nodup := by
  induction items using List.reverseRecOn with
  | nil => exact List.nodup_nil
  | append_singleton before item ih =>
      rw [eraseDups_concat]
      split
      · exact ih
      · next new =>
          refine List.nodup_append.mpr ⟨ih, by simp, ?_⟩
          intro known member other last same
          rw [same, List.mem_singleton.mp last] at member
          exact new (List.contains_iff_mem.mpr (List.mem_eraseDups.mp member))

theorem eraseDups_of_nodup {α : Type} [BEq α] [LawfulBEq α] {items : List α}
    (distinct : items.Nodup) : items.eraseDups = items := by
  induction items using List.reverseRecOn with
  | nil => rfl
  | append_singleton before item ih =>
      obtain ⟨earlier, _, apart⟩ := List.nodup_append.mp distinct
      have new : ¬before.contains item = true := fun known =>
        apart item (List.contains_iff_mem.mp known) item
          (List.mem_singleton_self item) rfl
      rw [eraseDups_concat, if_neg new, ih earlier]

/-- Collecting what is not yet there drops repetitions. -/
theorem foldl_collect_eq {ι α : Type} [BEq α] [LawfulBEq α] (valueOf : ι → α)
    (items : List ι) :
    items.foldl
        (fun known item =>
          if known.contains (valueOf item) then known
          else known ++ [valueOf item]) [] =
      (items.map valueOf).eraseDups := by
  induction items using List.reverseRecOn with
  | nil => rfl
  | append_singleton before item ih =>
      rw [List.foldl_append, ih, List.map_append, List.map_singleton,
        eraseDups_concat, List.foldl_cons, List.foldl_nil]
      have known : (before.map valueOf).eraseDups.contains (valueOf item) =
          (before.map valueOf).contains (valueOf item) := by
        rw [Bool.eq_iff_iff, List.contains_iff_mem, List.contains_iff_mem,
          List.mem_eraseDups]
      rw [known]

namespace Assoc

variable {ι α : Type}

theorem get?_map_names (valueOf : String → α) (name : String)
    (names : List String) :
    get? name (names.map fun name => (name, valueOf name)) =
      if name ∈ names then some (valueOf name) else none := by
  induction names with
  | nil => rfl
  | cons first rest ih =>
      by_cases same : first = name
      · simp [get?, same]
      · simp [get?, same, ih, Ne.symm same]

theorem put_map_names (valueOf : String → α) {name : String} (value : α)
    {names : List String} (distinct : names.Nodup) (member : name ∈ names) :
    put name value (names.map fun name => (name, valueOf name)) =
      names.map fun other =>
        (other, if other = name then value else valueOf other) := by
  induction names with
  | nil => cases member
  | cons first rest ih =>
      obtain ⟨absent, later⟩ := List.nodup_cons.mp distinct
      by_cases same : first = name
      · subst same
        have others : ∀ other ∈ rest, other ≠ first := fun other there here =>
          absent (here ▸ there)
        rw [List.map_cons, put, if_pos rfl, List.map_cons, if_pos rfl]
        congr 1
        exact List.map_congr_left fun other there => by
          rw [if_neg (others other there)]
      · have there : name ∈ rest :=
          (List.mem_cons.mp member).resolve_left (Ne.symm same)
        rw [List.map_cons, put, if_neg same, List.map_cons, if_neg same,
          ih later there]

/-- Items that are collected under their names, one after the other. -/
theorem foldl_alter_eq (nameOf : ι → String) (empty : α)
    (change : α → ι → α) (items : List ι) :
    items.foldl
        (fun groups item =>
          alter (nameOf item) empty (fun group => change group item) groups)
        [] =
      (items.map nameOf).eraseDups.map fun name =>
        (name, (items.filter fun item => nameOf item = name).foldl change
          empty) := by
  induction items using List.reverseRecOn with
  | nil => rfl
  | append_singleton before item ih =>
      rw [List.foldl_append, List.foldl_cons, List.foldl_nil, ih, alter,
        get?_map_names, List.map_append, List.map_singleton, eraseDups_concat]
      simp only [List.mem_eraseDups, List.filter_append]
      by_cases known : nameOf item ∈ before.map nameOf
      · -- The item joins the group of its name, and the others stay.
        rw [if_pos known, if_pos (List.contains_iff_mem.mpr known),
          put_map_names _ _ (nodup_eraseDups _) (List.mem_eraseDups.mpr known)]
        refine List.map_congr_left fun name _ => ?_
        by_cases same : name = nameOf item
        · simp [same]
        · simp [same, Ne.symm same]
      · -- The item founds a group, and no other item belongs to it.
        have none : before.filter (fun other => nameOf other = nameOf item) =
            [] := by
          refine List.filter_eq_nil_iff.mpr fun other there same => known ?_
          exact List.mem_map.mpr ⟨other, there, of_decide_eq_true same⟩
        have fresh : nameOf item ∉ keys
            ((before.map nameOf).eraseDups.map fun name =>
              (name, (before.filter fun item => nameOf item = name).foldl
                change empty)) := by
          simpa [keys, Function.comp_def] using known
        rw [if_neg known, if_neg fun there =>
            known (List.contains_iff_mem.mp there),
          put_of_not_mem _ fresh, List.map_append, List.map_singleton, none]
        congr 1
        · refine List.map_congr_left fun name there => ?_
          have other : nameOf item ≠ name := fun same =>
            known (same ▸ List.mem_eraseDups.mp there)
          simp [other]
        · simp

end Assoc

namespace IndexPage

/-- The descriptions of entries, in the order of the first entry with each; an
empty description is none. -/
def descriptions (entries : List IndexEntry) : List String :=
  ((entries.map IndexEntry.description).filter fun text => text ≠ "").eraseDups

/-- The entries with a description. -/
def described (description : String) (entries : List IndexEntry) :
    List IndexEntry :=
  entries.filter fun entry => entry.description = description

theorem namesByDescription_eq (entries : List IndexEntry) :
    namesByDescription entries =
      (descriptions entries).map fun description =>
        (description,
          ((described description entries).map IndexEntry.name).eraseDups) := by
  have spoken : namesByDescription entries =
      (entries.filter fun entry => entry.description ≠ "").foldl
        (fun groups entry =>
          Assoc.alter entry.description []
            (fun known =>
              if known.contains entry.name then known
              else known ++ [entry.name])
            groups) [] := by
    rw [List.foldl_filter, namesByDescription]
    congr 1
    funext names entry
    by_cases silent : entry.description = ""
    · simp [silent]
    · simp [silent]
  rw [spoken, Assoc.foldl_alter_eq IndexEntry.description []
    fun known (entry : IndexEntry) =>
      if known.contains entry.name then known else known ++ [entry.name]]
  have names : (entries.filter fun entry => entry.description ≠ "").map
      IndexEntry.description =
        (entries.map IndexEntry.description).filter fun text => text ≠ "" := by
    rw [List.filter_map]
    rfl
  rw [names, ← descriptions]
  refine List.map_congr_left fun description member => ?_
  have present : description ≠ "" := by
    have kept := (List.mem_filter.mp (List.mem_eraseDups.mp member)).2
    exact of_decide_eq_true kept
  rw [foldl_collect_eq, List.filter_filter, described]
  congr 3
  refine List.filter_congr fun entry _ => ?_
  by_cases same : entry.description = description
  · simp [same, present]
  · simp [same]

end IndexPage

end TagDoc
