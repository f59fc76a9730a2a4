import TagDoc.Proofs.Collector
import TagDoc.Proofs.Grouping

/-!
# What a flush hands out

A flush takes the levels of its order at their first places, then the others in
the order of severity, and hands out all messages of one level after those of
the level before it; nothing stays in the collector: `flushIn_eq`.
-/

namespace TagDoc

/-- Items that are taken by their keys, key after key, are rearranged. -/
theorem flatMap_filter_perm {ι κ : Type} [DecidableEq κ] (keyOf : ι → κ)
    {keys : List κ} (distinct : keys.Nodup) {items : List ι}
    (covered : ∀ item ∈ items, keyOf item ∈ keys) :
    (keys.flatMap fun key => items.filter fun item => keyOf item = key).Perm
      items := by
  induction keys generalizing items with
  | nil =>
      have nothing : items = [] := List.eq_nil_iff_forall_not_mem.mpr
        fun item member => List.not_mem_nil (covered item member)
      rw [nothing]
      rfl
  | cons key rest ih =>
      obtain ⟨absent, later⟩ := List.nodup_cons.mp distinct
      let others := items.filter fun item => !decide (keyOf item = key)
      have among : ∀ item ∈ others, keyOf item ∈ rest := by
        intro item member
        obtain ⟨listed, other⟩ := List.mem_filter.mp member
        exact (List.mem_cons.mp (covered item listed)).resolve_left
          (by simpa using other)
      -- The items of the first key are not asked for again.
      have same : (rest.flatMap fun other =>
            items.filter fun item => keyOf item = other) =
          rest.flatMap fun other =>
            others.filter fun item => keyOf item = other := by
        rw [List.flatMap, List.flatMap]
        congr 1
        apply List.map_congr_left
        intro other member
        rw [List.filter_filter]
        apply List.filter_congr
        intro item _
        by_cases here : keyOf item = other
        · have apart : ¬ other = key := fun equal => absent (equal ▸ member)
          simp [here, apart]
        · simp [here]
      rw [List.flatMap_cons, same]
      exact ((ih later among).append_left _).trans
        (List.filter_append_perm _ _)

/-- The levels in the order in which a flush takes them. -/
def levelSequence (order : List Level) : List Level :=
  order.eraseDups ++
    [Level.error, .warning, .info].filter fun level => level ∉ order

theorem mem_severityOrder (level : Level) : level ∈ Level.severityOrder := by
  cases level with
  | error => decide
  | warning => decide
  | info => decide

theorem mem_levelSequence (order : List Level) (level : Level) :
    level ∈ levelSequence order := by
  have known : level ∈ [Level.error, .warning, .info] := mem_severityOrder level
  by_cases listed : level ∈ order
  · simp [levelSequence, listed]
  · simp only [levelSequence, List.mem_append, List.mem_filter]
    exact .inr ⟨known, decide_eq_true listed⟩

theorem nodup_severityOrder : Level.severityOrder.Nodup := by decide

theorem nodup_levelSequence (order : List Level) :
    (levelSequence order).Nodup := by
  refine List.nodup_append.mpr
    ⟨nodup_eraseDups order, nodup_severityOrder.filter _, ?_⟩
  rintro level listed other unlisted rfl
  have absent := (List.mem_filter.mp unlisted).2
  exact of_decide_eq_true absent (List.mem_eraseDups.mp listed)

namespace Diagnostics

theorem eq_empty_of_messages {collected : Diagnostics}
    (nothing : ∀ level, collected.messages level = []) :
    collected = .empty :=
  Diagnostics.ext (nothing .error) (nothing .warning) (nothing .info)

theorem messages_discard (collected : Diagnostics) (level other : Level) :
    (collected.discard level).messages other =
      if other = level then [] else collected.messages other := by
  cases level <;> cases other <;> rfl

theorem drain_append (first second : List Level) (collected : Diagnostics) :
    drain (first ++ second) collected =
      let (early, middle) := drain first collected
      let (late, remaining) := drain second middle
      (early ++ late, remaining) := by
  induction first generalizing collected with
  | nil => rfl
  | cons level rest ih => simp [drain, ih]

/-- The messages of a level, as they are handed out. -/
def handed (collected : Diagnostics) (level : Level) : List Diagnostic :=
  (collected.messages level).map (Diagnostic.mk level)

/-- Each level gives its messages at its first place, and keeps none. -/
theorem drain_eq (levels : List Level) (collected : Diagnostics) :
    (drain levels collected).1 =
        levels.eraseDups.flatMap collected.handed ∧
      ∀ level, (drain levels collected).2.messages level =
        if level ∈ levels then [] else collected.messages level := by
  induction levels using List.reverseRecOn with
  | nil => exact ⟨rfl, fun _ => rfl⟩
  | append_singleton before last ih =>
      obtain ⟨given, left⟩ := ih
      rw [drain_append]
      constructor
      · simp only [drain, List.append_nil, given, left]
        rw [eraseDups_concat]
        by_cases known : last ∈ before
        · simp [known]
        · simp [known, handed]
      · intro level
        simp only [drain, messages_discard, left]
        by_cases same : level = last
        · simp [same]
        · simp [same]

theorem flushIn_eq (order : List Level) (collected : Diagnostics) :
    collected.flushIn order =
      ((levelSequence order).flatMap collected.handed, .empty) := by
  let others := Level.severityOrder.filter fun level => !order.contains level
  have unlisted :
      others = Level.severityOrder.filter fun level => level ∉ order := by
    apply List.filter_congr
    intro level _
    simp
  have places : (order ++ others).eraseDups = levelSequence order := by
    have kept : others.removeAll order = others := by
      rw [List.removeAll, List.filter_eq_self]
      intro level member
      simpa using (List.mem_filter.mp member).2
    have distinct : others.Nodup := nodup_severityOrder.filter _
    rw [List.eraseDups_append, kept, eraseDups_of_nodup distinct, unlisted]
    rfl
  obtain ⟨given, left⟩ := drain_eq (order ++ others) collected
  have emptied : (drain (order ++ others) collected).2 = .empty := by
    apply eq_empty_of_messages
    intro level
    have listed : level ∈ order ++ others := by
      rw [← List.mem_eraseDups, places]
      exact mem_levelSequence order level
    rw [left, if_pos listed]
  rw [places] at given
  exact Prod.ext given emptied

end Diagnostics

end TagDoc
