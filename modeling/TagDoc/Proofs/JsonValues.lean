import TagDoc.Proofs.DeclaredNames

/-!
# JSON values and what they stand for

The draft of a value reads as the value.  The value that remains when repeated
names are resolved has every name once, and stands for itself.
-/

namespace TagDoc

namespace Assoc

variable {α : Type}

theorem ofList_of_nodup {pairs : List (String × α)}
    (distinct : (keys pairs).Nodup) : ofList pairs = pairs := by
  induction pairs using List.reverseRecOn with
  | nil => rfl
  | append_singleton before pair ih =>
      have named : keys (before ++ [pair]) = keys before ++ [pair.1] :=
        List.map_append
      obtain ⟨earlier, _, apart⟩ := List.nodup_append.mp (named ▸ distinct)
      have new : pair.1 ∉ keys before := fun known =>
        apart pair.1 known pair.1 (List.mem_singleton_self _) rfl
      have step : ofList (before ++ [pair]) =
          put pair.1 pair.2 (ofList before) := putAll_append before [pair] []
      rw [step, ih earlier, put_of_not_mem pair.2 new]

end Assoc

namespace Json

theorem sizeOf_lt_array {item : Json} {items : List Json}
    (member : item ∈ items) : sizeOf item < sizeOf (Json.array items) := by
  have smaller := List.sizeOf_lt_of_mem member
  rw [Json.array.sizeOf_spec]
  omega

theorem sizeOf_lt_object {member : String × Json}
    {members : List (String × Json)} (there : member ∈ members) :
    sizeOf member.2 < sizeOf (Json.object members) := by
  obtain ⟨name, value⟩ := member
  have smaller := List.sizeOf_lt_of_mem there
  rw [Prod.mk.sizeOf_spec] at smaller
  rw [Json.object.sizeOf_spec]
  dsimp only
  omega

/-- What holds of a value whenever it holds of its items or members holds of
all values. -/
theorem parts_induction {holds : Json → Prop} (null : holds .null)
    (bool : ∀ value, holds (.bool value))
    (number : ∀ value, holds (.number value))
    (string : ∀ text, holds (.string text))
    (array : ∀ items, (∀ item ∈ items, holds item) → holds (.array items))
    (object : ∀ members, (∀ member ∈ members, holds member.2) →
      holds (.object members))
    (value : Json) : holds value := by
  match value with
  | .null => exact null
  | .bool value => exact bool value
  | .number value => exact number value
  | .string text => exact string text
  | .array items =>
      exact array items fun item _ =>
        parts_induction null bool number string array object item
  | .object members =>
      exact object members fun member _ =>
        parts_induction null bool number string array object member.2
termination_by sizeOf value
decreasing_by
  · exact sizeOf_lt_array ‹_›
  · exact sizeOf_lt_object ‹_›

/-! ## Reading drafts of values -/

mutual

theorem read_draft (value : Json) : value.draft.read = .ok value := by
  cases value with
  | null => rfl
  | bool value => rfl
  | number value => rfl
  | string text => rfl
  | array items =>
      rw [draft, Draft.read, readItems_draftItems items]
      rfl
  | object members =>
      rw [draft, Draft.read, readMembers_draftMembers members]
      rfl

theorem readItems_draftItems (items : List Json) :
    Draft.readItems (draftItems items) = .ok items := by
  cases items with
  | nil => rfl
  | cons item rest =>
      rw [draftItems, Draft.readItems, read_draft item,
        readItems_draftItems rest]
      rfl

theorem readMembers_draftMembers (members : List (String × Json)) :
    Draft.readMembers (draftMembers members) = .ok members := by
  cases members with
  | nil => rfl
  | cons member rest =>
      obtain ⟨name, value⟩ := member
      rw [draftMembers, Draft.readMembers, read_draft value,
        readMembers_draftMembers rest]
      rfl

end

/-! ## Resolving repeated names -/

theorem mergedItems_eq (items : List Json) :
    mergedItems items = items.map merged := by
  induction items with
  | nil => rfl
  | cons item rest ih => rw [mergedItems, ih, List.map_cons]

theorem mergedMembers_eq (members : List (String × Json)) :
    mergedMembers members =
      members.map fun (name, value) => (name, value.merged) := by
  induction members with
  | nil => rfl
  | cons member rest ih =>
      obtain ⟨name, value⟩ := member
      rw [mergedMembers, ih, List.map_cons]

theorem merged_object (members : List (String × Json)) :
    merged (.object members) =
      .object (Assoc.ofList
        (members.map fun (name, value) => (name, value.merged))) := by
  rw [merged, mergedMembers_eq]

/-- A value with repeated names resolved stands for itself. -/
theorem merged_merged (value : Json) : value.merged.merged = value.merged := by
  induction value using parts_induction with
  | null => rfl
  | bool value => rfl
  | number value => rfl
  | string text => rfl
  | array items ih =>
      simp only [merged, mergedItems_eq, List.map_map]
      congr 1
      exact List.map_congr_left ih
  | object members ih =>
      let kept := Assoc.ofList
        (members.map fun (name, value) => (name, value.merged))
      have same :
          kept.map (fun (name, value) => (name, value.merged)) = kept := by
        refine (List.map_congr_left fun entry there => ?_).trans kept.map_id
        obtain ⟨member, known, rfl⟩ := List.mem_map.mp (Assoc.mem_ofList there)
        exact congrArg (Prod.mk member.1) (ih member known)
      have distinct : (Assoc.keys kept).Nodup := Assoc.nodup_keys_ofList _
      rw [merged_object, merged_object]
      exact congrArg Json.object (same.symm ▸ Assoc.ofList_of_nodup distinct)

theorem merged_ne_null {value : Json} (declared : value ≠ .null) :
    value.merged ≠ .null := by
  cases value with
  | null => exact (declared rfl).elim
  | bool value => simp [merged]
  | number value => simp [merged]
  | string text => simp [merged]
  | array items => simp [merged]
  | object members => simp [merged]

end Json

end TagDoc
