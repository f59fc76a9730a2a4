/-!
# Lists of named values in the order of their first naming

Registries, page indexes and configuration sections answer in the order in
which their names were first given, and a name that is given again takes a
new value at its old place.  `Assoc` is the list of pairs with the operation
`put` that keeps this rule; `keys_put` and the two `get?_put` lemmas say all
that readers need.
-/

namespace TagDoc

/-- Values by name, in the order of first naming. -/
abbrev Assoc (α : Type) := List (String × α)

namespace Assoc

variable {α : Type}

def get? (name : String) : Assoc α → Option α
  | [] => none
  | (key, value) :: rest => if key = name then some value else get? name rest

def keys (entries : Assoc α) : List String :=
  entries.map (·.1)

/-- Replace the value under a name where it stands, or add the pair at the
end. -/
def put (name : String) (value : α) : Assoc α → Assoc α
  | [] => [(name, value)]
  | (key, old) :: rest =>
      if key = name then (key, value) :: rest
      else (key, old) :: put name value rest

def ofList (pairs : List (String × α)) : Assoc α :=
  pairs.foldl (fun entries (name, value) => put name value entries) []

/-- Extend the value under a name, starting from `empty` for a new name. -/
def alter (name : String) (empty : α) (change : α → α) (entries : Assoc α) :
    Assoc α :=
  put name (change ((get? name entries).getD empty)) entries

@[simp]
theorem get?_put_self (name : String) (value : α) (entries : Assoc α) :
    get? name (put name value entries) = some value := by
  induction entries with
  | nil => simp [put, get?]
  | cons entry rest ih =>
      obtain ⟨key, old⟩ := entry
      by_cases same : key = name
      · simp [put, get?, same]
      · simp [put, get?, same, ih]

theorem get?_put_of_ne {name other : String} (value : α) (entries : Assoc α)
    (different : other ≠ name) :
    get? other (put name value entries) = get? other entries := by
  induction entries with
  | nil => simp [put, get?, different.symm]
  | cons entry rest ih =>
      obtain ⟨key, old⟩ := entry
      by_cases same : key = name
      · subst same
        simp [put, get?, different.symm]
      · by_cases here : key = other
        · subst here
          simp [put, get?, different]
        · simp [put, get?, same, here, ih]

/-- Putting a value keeps the names and their order; a new name comes last. -/
theorem keys_put (name : String) (value : α) (entries : Assoc α) :
    keys (put name value entries) =
      if name ∈ keys entries then keys entries else keys entries ++ [name] := by
  induction entries with
  | nil => simp [put, keys]
  | cons entry rest ih =>
      obtain ⟨key, old⟩ := entry
      by_cases same : key = name
      · simp [put, keys, same]
      · have tail := ih
        simp only [keys] at tail
        by_cases member : name ∈ rest.map (·.1)
        · simp [put, keys, same, tail, member]
        · simp [put, keys, same, tail, member, Ne.symm same]

theorem put_of_not_mem {name : String} (value : α) {entries : Assoc α}
    (new : name ∉ keys entries) :
    put name value entries = entries ++ [(name, value)] := by
  induction entries with
  | nil => rfl
  | cons entry rest ih =>
      obtain ⟨key, old⟩ := entry
      have other : key ≠ name := by
        intro same
        subst same
        exact new (List.mem_cons_self)
      have later : name ∉ keys rest := fun member =>
        new (List.mem_cons_of_mem _ member)
      rw [put, if_neg other, ih later, List.cons_append]

theorem nodup_keys_put (name : String) (value : α) {entries : Assoc α}
    (distinct : (keys entries).Nodup) : (keys (put name value entries)).Nodup := by
  rw [keys_put]
  split
  · exact distinct
  · next new =>
      refine List.nodup_append.mpr ⟨distinct, by simp, ?_⟩
      intro known member other last same
      rw [List.mem_singleton.mp last] at same
      exact new (same ▸ member)

theorem get?_map {β : Type} (name : String) (change : α → β)
    (entries : Assoc α) :
    get? name (entries.map fun (key, value) => (key, change value)) =
      (get? name entries).map change := by
  induction entries with
  | nil => rfl
  | cons entry rest ih =>
      obtain ⟨key, value⟩ := entry
      by_cases same : key = name
      · simp [get?, same]
      · simp [get?, same, ih]

end Assoc

end TagDoc
