import Mathlib.Data.List.Forall2
import Mathlib.Data.List.Induction
import TagDoc.Assoc

/-!
# Putting many values one after the other

After a run of values a name has the last value it was given, and names stand
in the order of their first naming.  Values that were put once can be put again
without a change: `Assoc.putAll_putAll`.
-/

namespace TagDoc

theorem eraseDups_concat {α : Type} [BEq α] [LawfulBEq α] (items : List α)
    (item : α) :
    (items ++ [item]).eraseDups =
      if items.contains item then items.eraseDups
      else items.eraseDups ++ [item] := by
  rw [List.eraseDups_append]
  by_cases known : item ∈ items
  · simp [List.removeAll, known]
  · simp [List.removeAll, known, List.eraseDups_cons]

namespace Assoc

variable {α β : Type}

/-- Put values under their names, one after the other. -/
def putAll (pairs : List (String × α)) (entries : Assoc α) : Assoc α :=
  pairs.foldl (fun entries (name, value) => put name value entries) entries

@[simp]
theorem putAll_nil (entries : Assoc α) : putAll [] entries = entries := rfl

@[simp]
theorem putAll_cons (pair : String × α) (rest : List (String × α))
    (entries : Assoc α) :
    putAll (pair :: rest) entries = putAll rest (put pair.1 pair.2 entries) := rfl

theorem putAll_append (first second : List (String × α)) (entries : Assoc α) :
    putAll (first ++ second) entries = putAll second (putAll first entries) :=
  List.foldl_append

/-! ## Names -/

theorem mem_keys_put {name other : String} {value : α} {entries : Assoc α} :
    other ∈ keys (put name value entries) ↔
      other ∈ keys entries ∨ other = name := by
  rw [keys_put]
  split
  · next known =>
      refine ⟨.inl, ?_⟩
      rintro (there | rfl)
      · exact there
      · exact known
  · simp

theorem mem_keys_putAll {name : String} {pairs : List (String × α)}
    {entries : Assoc α} :
    name ∈ keys (putAll pairs entries) ↔
      name ∈ keys entries ∨ name ∈ keys pairs := by
  induction pairs generalizing entries with
  | nil => simp [keys]
  | cons pair rest ih =>
      rw [putAll_cons, ih, mem_keys_put, or_assoc]
      simp [keys]

/-- Known names keep their places, and new ones follow in the order of their
first naming. -/
theorem keys_putAll_append (pairs : List (String × α)) (entries : Assoc α) :
    keys (putAll pairs entries) =
      keys entries ++
        ((keys pairs).filter fun name => name ∉ keys entries).eraseDups := by
  induction pairs using List.reverseRecOn with
  | nil => simp [keys]
  | append_singleton before pair ih =>
      have named : keys (before ++ [pair]) = keys before ++ [pair.1] :=
        List.map_append
      rw [putAll_append, putAll_cons, putAll_nil, keys_put, ih, named,
        List.filter_append]
      by_cases known : pair.1 ∈ keys entries
      · simp [known]
      · rw [List.filter_singleton, decide_eq_true known, cond_true,
          eraseDups_concat]
        by_cases earlier : pair.1 ∈ keys before
        · simp [known, earlier]
        · simp [known, earlier]

theorem keys_putAll (pairs : List (String × α)) :
    keys (putAll pairs []) = (keys pairs).eraseDups := by
  rw [keys_putAll_append]
  simp [keys]

/-! ## Values -/

theorem get?_putAll (name : String) (pairs : List (String × α))
    (entries : Assoc α) :
    get? name (putAll pairs entries) =
      (get? name pairs.reverse).or (get? name entries) := by
  have get?_append (first second : Assoc α) :
      get? name (first ++ second) =
        (get? name first).or (get? name second) := by
    induction first with
    | nil => rfl
    | cons entry rest ih =>
        by_cases same : entry.1 = name
        · simp [get?, same]
        · simp [get?, same, ih]
  induction pairs generalizing entries with
  | nil => simp [get?]
  | cons pair rest ih =>
      rw [putAll_cons, ih, List.reverse_cons, get?_append, Option.or_assoc]
      congr 1
      by_cases same : pair.1 = name
      · simp [get?, same]
      · simp [get?, same, get?_put_of_ne pair.2 entries (Ne.symm same)]

theorem get?_eq_none_of_not_mem {name : String} {entries : Assoc α}
    (absent : name ∉ keys entries) : get? name entries = none := by
  induction entries with
  | nil => rfl
  | cons entry rest ih =>
      have other : entry.1 ≠ name := fun same =>
        absent (same ▸ List.mem_cons_self)
      rw [get?, if_neg other]
      exact ih fun later => absent (List.mem_cons_of_mem _ later)

theorem get?_putAll_of_not_mem {name : String} {pairs : List (String × α)}
    (entries : Assoc α) (absent : name ∉ keys pairs) :
    get? name (putAll pairs entries) = get? name entries := by
  have never : name ∉ keys pairs.reverse := by
    simpa [keys] using absent
  rw [get?_putAll, get?_eq_none_of_not_mem never, Option.none_or]

theorem get?_putAll_of_last {pair : String × α}
    {before after : List (String × α)} (entries : Assoc α)
    (last : pair.1 ∉ keys after) :
    get? pair.1 (putAll (before ++ pair :: after) entries) = some pair.2 := by
  rw [putAll_append, putAll_cons, get?_putAll_of_not_mem _ last,
    get?_put_self]

/-- Where a name always gets the same value it does not matter when it got it
last. -/
theorem get?_putAll_map (valueOf : String → α) {name : String}
    {names : List String} (entries : Assoc α) (member : name ∈ names) :
    get? name (putAll (names.map fun name => (name, valueOf name)) entries) =
      some (valueOf name) := by
  induction names generalizing entries with
  | nil => cases member
  | cons first rest ih =>
      rw [List.map_cons, putAll_cons]
      by_cases later : name ∈ rest
      · exact ih _ later
      · have here : name = first := (List.mem_cons.mp member).resolve_right later
        have never : name ∉ keys (rest.map fun name => (name, valueOf name)) := by
          simpa [keys, Function.comp_def] using later
        rw [get?_putAll_of_not_mem _ never, here, get?_put_self]

theorem mem_put {name : String} {value : α} {entry : String × α}
    {entries : Assoc α} (member : entry ∈ put name value entries) :
    entry = (name, value) ∨ entry ∈ entries := by
  induction entries with
  | nil => exact .inl (List.mem_singleton.mp member)
  | cons first rest ih =>
      obtain ⟨key, old⟩ := first
      by_cases same : key = name
      · rw [put, if_pos same, List.mem_cons, same] at member
        exact member.imp_right (List.mem_cons_of_mem _)
      · rw [put, if_neg same, List.mem_cons] at member
        rcases member with rfl | later
        · exact .inr List.mem_cons_self
        · exact (ih later).imp_right (List.mem_cons_of_mem _)

theorem mem_putAll {pairs : List (String × α)} {entry : String × α}
    {entries : Assoc α} (member : entry ∈ putAll pairs entries) :
    entry ∈ pairs ∨ entry ∈ entries := by
  induction pairs generalizing entries with
  | nil => exact .inr member
  | cons pair rest ih =>
      rcases ih member with later | before
      · exact .inl (List.mem_cons_of_mem _ later)
      · rcases mem_put before with rfl | old
        · exact .inl List.mem_cons_self
        · exact .inr old

/-- Names that always get the same value stand in the order of their first
naming, each with its value. -/
theorem putAll_map_nil (valueOf : String → α) (names : List String) :
    putAll (names.map fun name => (name, valueOf name)) [] =
      names.eraseDups.map fun name => (name, valueOf name) := by
  have named : keys (names.map fun name => (name, valueOf name)) = names := by
    simp [keys, Function.comp_def]
  have valued : ∀ entry ∈ putAll (names.map fun name => (name, valueOf name)) [],
      entry = (entry.1, valueOf entry.1) := by
    intro entry member
    have given := (mem_putAll member).resolve_right List.not_mem_nil
    obtain ⟨name, _, rfl⟩ := List.mem_map.mp given
    rfl
  calc putAll (names.map fun name => (name, valueOf name)) []
      = (putAll (names.map fun name => (name, valueOf name)) []).map
          fun entry => (entry.1, valueOf entry.1) := by
        rw [← List.map_congr_left valued, List.map_id']
    _ = (keys (putAll (names.map fun name => (name, valueOf name)) [])).map
          fun name => (name, valueOf name) := by
        rw [keys, List.map_map]
        rfl
    _ = names.eraseDups.map fun name => (name, valueOf name) := by
        rw [keys_putAll, named]

/-! ## Putting again -/

theorem put_put_self (name : String) (old new : α) (entries : Assoc α) :
    put name new (put name old entries) = put name new entries := by
  induction entries with
  | nil => simp [put]
  | cons entry rest ih =>
      by_cases same : entry.1 = name
      · simp [put, same]
      · simp [put, same, ih]

/-- Values for different names can be put in either order, provided that this
does not settle which of the names comes first. -/
theorem put_comm {first second : String} (different : first ≠ second)
    (one two : α) {entries : Assoc α} (known : first ∈ keys entries) :
    put first one (put second two entries) =
      put second two (put first one entries) := by
  induction entries with
  | nil => cases known
  | cons entry rest ih =>
      obtain ⟨key, old⟩ := entry
      by_cases atFirst : key = first
      · subst atFirst
        simp [put, different]
      · by_cases atSecond : key = second
        · subst atSecond
          simp [put, atFirst]
        · have later : first ∈ keys rest :=
            (List.mem_cons.mp known).resolve_left (Ne.symm atFirst)
          simp [put, atFirst, atSecond, ih later]

theorem put_eq_self {name : String} {value : α} {entries : Assoc α}
    (there : get? name entries = some value) :
    put name value entries = entries := by
  induction entries with
  | nil => cases there
  | cons entry rest ih =>
      obtain ⟨key, old⟩ := entry
      by_cases same : key = name
      · subst same
        have equal : old = value := by simpa [get?] using there
        simp [put, equal]
      · have later : get? name rest = some value := by
          simpa [get?, same] using there
        simp [put, same, ih later]

theorem putAll_eq_self {pairs : List (String × α)} {entries : Assoc α}
    (there : ∀ pair ∈ pairs, get? pair.1 entries = some pair.2) :
    putAll pairs entries = entries := by
  induction pairs with
  | nil => rfl
  | cons pair rest ih =>
      rw [putAll_cons, put_eq_self (there pair List.mem_cons_self)]
      exact ih fun pair member => there pair (List.mem_cons_of_mem _ member)

/-- A value does not matter if its name is known already and is given another
one at the end. -/
theorem put_putAll_put {name : String} (old new : α)
    {pairs : List (String × α)} {entries : Assoc α}
    (known : ∀ other ∈ keys pairs, other ∈ keys entries) :
    put name new (putAll pairs (put name old entries)) =
      put name new (putAll pairs entries) := by
  induction pairs generalizing entries with
  | nil => exact put_put_self name old new entries
  | cons pair rest ih =>
      have here : pair.1 ∈ keys entries := known pair.1 List.mem_cons_self
      have others : ∀ other ∈ keys rest,
          other ∈ keys (put pair.1 pair.2 entries) := fun other member =>
        mem_keys_put.mpr (.inl (known other (List.mem_cons_of_mem _ member)))
      by_cases same : pair.1 = name
      · rw [putAll_cons, putAll_cons, same, put_put_self]
      · rw [putAll_cons, putAll_cons, put_comm same pair.2 old here, ih others]

theorem putAll_putAll (pairs : List (String × α)) (entries : Assoc α) :
    putAll pairs (putAll pairs entries) = putAll pairs entries := by
  induction pairs using List.reverseRecOn with
  | nil => rfl
  | append_singleton before pair ih =>
      have known : ∀ other ∈ keys before,
          other ∈ keys (putAll before entries) := fun other member =>
        mem_keys_putAll.mpr (.inr member)
      calc putAll (before ++ [pair]) (putAll (before ++ [pair]) entries)
          = put pair.1 pair.2 (putAll before
              (put pair.1 pair.2 (putAll before entries))) := by
            simp only [putAll_append, putAll_cons, putAll_nil]
        _ = put pair.1 pair.2 (putAll before (putAll before entries)) :=
            put_putAll_put _ _ known
        _ = putAll (before ++ [pair]) entries := by
            rw [ih, putAll_append, putAll_cons, putAll_nil]

/-! ## Runs side by side -/

theorem map_put (change : α → β) (name : String) (value : α)
    (entries : Assoc α) :
    (put name value entries).map (fun (key, value) => (key, change value)) =
      put name (change value)
        (entries.map fun (key, value) => (key, change value)) := by
  induction entries with
  | nil => rfl
  | cons entry rest ih =>
      by_cases same : entry.1 = name
      · simp [put, same]
      · simp [put, same, ih]

theorem map_putAll (change : α → β) (pairs : List (String × α))
    (entries : Assoc α) :
    (putAll pairs entries).map (fun (key, value) => (key, change value)) =
      putAll (pairs.map fun (key, value) => (key, change value))
        (entries.map fun (key, value) => (key, change value)) := by
  induction pairs generalizing entries with
  | nil => rfl
  | cons pair rest ih =>
      rw [putAll_cons, ih, map_put, List.map_cons, putAll_cons]

/-- Two lists have the same names in the same places, with related values. -/
def Alike (related : α → β → Prop) : Assoc α → Assoc β → Prop :=
  List.Forall₂ fun first second =>
    first.1 = second.1 ∧ related first.2 second.2

theorem Alike.put {related : α → β → Prop} {first : Assoc α}
    {second : Assoc β} (alike : Alike related first second) (name : String)
    {one : α} {two : β} (values : related one two) :
    Alike related (put name one first) (put name two second) := by
  induction alike with
  | nil => exact .cons ⟨rfl, values⟩ .nil
  | @cons entry other rest others same _ ih =>
      obtain ⟨key, old⟩ := entry
      obtain ⟨key', old'⟩ := other
      obtain ⟨rfl, related⟩ := same
      by_cases here : key = name
      · simp only [Assoc.put, here, if_true]
        exact .cons ⟨rfl, values⟩ ‹_›
      · simp only [Assoc.put, here, if_false]
        exact .cons ⟨rfl, related⟩ ih

theorem Alike.putAll {related : α → β → Prop} {first : Assoc α}
    {second : Assoc β} (alike : Alike related first second)
    {pairs : List (String × α)} {others : List (String × β)}
    (values : Alike related pairs others) :
    Alike related (putAll pairs first) (putAll others second) := by
  induction values generalizing first second with
  | nil => exact alike
  | cons same _ ih =>
      obtain ⟨name, value⟩ := same
      rw [putAll_cons, putAll_cons, name]
      exact ih (alike.put _ value)

theorem Alike.refl {related : α → α → Prop}
    (same : ∀ value, related value value) (entries : Assoc α) :
    Alike related entries entries :=
  List.forall₂_same.mpr fun _ _ => ⟨rfl, same _⟩

theorem Alike.putAll_again {related : α → α → Prop}
    (same : ∀ value, related value value) {pairs others : List (String × α)}
    (values : Alike related pairs others) (entries : Assoc α) :
    Alike related (Assoc.putAll pairs entries)
      (Assoc.putAll others (Assoc.putAll pairs entries)) := by
  have stays := (refl same (Assoc.putAll pairs entries)).putAll values
  rwa [putAll_putAll] at stays

end Assoc

end TagDoc
