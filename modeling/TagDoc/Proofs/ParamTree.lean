import TagDoc.ParamTree

/-!
# Look-ups in annotation trees

Every level of an annotation tree is sorted by name, and a look-up relies on
it.  `Sorted` is that invariant; `describe` keeps it.  What a tree says of a
sequence of names is whether there is a node and which description it has:
`descriptionAt?_describe` tells how one description changes this for every
sequence of names.
-/

namespace TagDoc

namespace ParamTree

mutual

/-- Every level below a node is strictly sorted by name. -/
def SortedBelow : ParamNode → Prop
  | ⟨_, children⟩ => Sorted children

/-- Every level of a tree is strictly sorted by name. -/
def Sorted : List (String × ParamNode) → Prop
  | [] => True
  | (name, node) :: rest =>
      (∀ entry ∈ rest, name < entry.1) ∧ SortedBelow node ∧ Sorted rest

end

/-- What a tree says of a sequence of names: nothing without a node, and else
the description of the node, which may be absent. -/
def descriptionAt? (names : List String) (tree : ParamTree) :
    Option (Option String) :=
  (find? names tree).map ParamNode.description

/-- The tree below a name. -/
def below (name : String) (tree : ParamTree) : ParamTree :=
  ((get? name tree).getD {}).children

@[simp]
theorem sorted_nil : Sorted [] := trivial

theorem sorted_cons {name : String} {node : ParamNode} {rest : ParamTree} :
    Sorted ((name, node) :: rest) ↔
      (∀ entry ∈ rest, name < entry.1) ∧ Sorted node.children ∧
        Sorted rest := by
  cases node with
  | mk description children => simp only [Sorted, SortedBelow]

/-! ## One level -/

theorem get?_cons_self (name : String) (node : ParamNode)
    (rest : ParamTree) : get? name ((name, node) :: rest) = some node := by
  simp [get?]

theorem get?_eq_none_of_lt {name : String} {tree : ParamTree}
    (before : ∀ entry ∈ tree, name < entry.1) : get? name tree = none := by
  induction tree with
  | nil => rfl
  | cons entry rest ih =>
      obtain ⟨key, node⟩ := entry
      have below : name < key := before (key, node) List.mem_cons_self
      have different : key ≠ name := by
        intro same
        exact String.lt_irrefl name (same ▸ below)
      have later : get? name rest = none :=
        ih fun entry member => before entry (List.mem_cons_of_mem _ member)
      simp [get?, different, later]

theorem get?_alter {tree : ParamTree} (sorted : Sorted tree)
    (name query : String) (change : ParamNode → ParamNode) :
    get? query (alter name change tree) =
      if query = name then some (change ((get? name tree).getD {}))
      else get? query tree := by
  induction tree with
  | nil =>
      by_cases same : query = name
      · simp [alter, get?, same]
      · simp [alter, get?, same, Ne.symm same]
  | cons entry rest ih =>
      obtain ⟨key, node⟩ := entry
      obtain ⟨above, _, restSorted⟩ := sorted_cons.mp sorted
      have later := ih restSorted
      by_cases before : name < key
      · have fresh : get? name ((key, node) :: rest) = none := by
          apply get?_eq_none_of_lt
          intro entry member
          rcases List.mem_cons.mp member with rfl | member
          · exact before
          · exact String.lt_trans before (above entry member)
        by_cases same : query = name
        · subst same
          simp [alter, before, get?_cons_self, fresh]
        · simp [alter, before, get?, same, Ne.symm same]
      · by_cases here : name = key
        · subst here
          by_cases same : query = name
          · simp [alter, get?, same]
          · simp [alter, get?, same, Ne.symm same]
        · by_cases same : query = name
          · subst same
            simp [alter, before, get?, here, Ne.symm here, later]
          · by_cases first : key = query
            · subst first
              simp [alter, before, get?_cons_self, here, same]
            · simp [alter, before, get?, here, first, same, later]

theorem mem_alter {name : String} {change : ParamNode → ParamNode}
    {tree : ParamTree} {entry : String × ParamNode}
    (member : entry ∈ alter name change tree) :
    entry.1 = name ∨ ∃ old ∈ tree, old.1 = entry.1 := by
  induction tree with
  | nil =>
      simp only [alter, List.mem_singleton] at member
      exact .inl (by rw [member])
  | cons first rest ih =>
      obtain ⟨key, node⟩ := first
      simp only [alter] at member
      split at member
      · rcases List.mem_cons.mp member with rfl | member
        · exact .inl rfl
        · exact .inr ⟨entry, member, rfl⟩
      · split at member
        · rcases List.mem_cons.mp member with rfl | member
          · exact .inr ⟨(key, node), List.mem_cons_self, rfl⟩
          · exact .inr ⟨entry, List.mem_cons_of_mem _ member, rfl⟩
        · rcases List.mem_cons.mp member with rfl | member
          · exact .inr ⟨(key, node), List.mem_cons_self, rfl⟩
          · rcases ih member with same | ⟨old, present, same⟩
            · exact .inl same
            · exact .inr ⟨old, List.mem_cons_of_mem _ present, same⟩

theorem sorted_get? {tree : ParamTree} (sorted : Sorted tree) {name : String}
    {node : ParamNode} (found : get? name tree = some node) :
    Sorted node.children := by
  induction tree with
  | nil => simp [get?] at found
  | cons entry rest ih =>
      obtain ⟨key, first⟩ := entry
      obtain ⟨_, childrenSorted, restSorted⟩ := sorted_cons.mp sorted
      by_cases here : key = name
      · simp only [get?, here, ↓reduceIte, Option.some.injEq] at found
        exact found ▸ childrenSorted
      · simp only [get?, here, ↓reduceIte] at found
        exact ih restSorted found

theorem sorted_below {tree : ParamTree} (sorted : Sorted tree)
    (name : String) : Sorted (below name tree) := by
  cases found : get? name tree with
  | none => simp [below, found]
  | some node => simpa [below, found] using sorted_get? sorted found

theorem sorted_alter {tree : ParamTree} (sorted : Sorted tree)
    (name : String) {change : ParamNode → ParamNode}
    (kept : Sorted (change ((get? name tree).getD {})).children) :
    Sorted (alter name change tree) := by
  induction tree with
  | nil => simpa [alter, sorted_cons, get?] using kept
  | cons entry rest ih =>
      obtain ⟨key, node⟩ := entry
      obtain ⟨above, nodeSorted, restSorted⟩ := sorted_cons.mp sorted
      by_cases before : name < key
      · have all : ∀ entry ∈ (key, node) :: rest, name < entry.1 := by
          intro entry member
          rcases List.mem_cons.mp member with rfl | member
          · exact before
          · exact String.lt_trans before (above entry member)
        have fresh := get?_eq_none_of_lt all
        rw [fresh] at kept
        simp only [alter, before, ↓reduceIte]
        exact sorted_cons.mpr ⟨all, kept, sorted⟩
      · by_cases here : name = key
        · subst here
          simp only [get?, ↓reduceIte, Option.getD_some] at kept
          simp only [alter, before, ↓reduceIte]
          exact sorted_cons.mpr ⟨above, kept, restSorted⟩
        · have after : key < name := by
            apply String.not_le.mp
            intro le
            exact before (String.not_le.mp fun ge =>
              here (String.le_antisymm le ge))
          simp only [get?, Ne.symm here, ↓reduceIte] at kept
          simp only [alter, before, here, ↓reduceIte]
          refine sorted_cons.mpr ⟨?_, nodeSorted, ih restSorted kept⟩
          intro entry member
          rcases mem_alter member with same | ⟨old, present, same⟩
          · exact same ▸ after
          · exact same ▸ above old present

/-! ## Sequences of names -/

theorem find?_nil_tree (names : List String) : find? names [] = none := by
  match names with
  | [] | [_] | _ :: _ :: _ => rfl

theorem find?_cons {names : List String} (more : names ≠ []) (name : String)
    (tree : ParamTree) :
    find? (name :: names) tree = find? names (below name tree) := by
  match names with
  | next :: rest =>
      cases found : get? name tree with
      | none => simp [find?, found, below, find?_nil_tree]
      | some node => simp [find?, found, below]

/-- A longer sequence of names is looked up among the children of the node at
its beginning. -/
theorem find?_append_singleton {names : List String} (named : names ≠ [])
    (key : String) (tree : ParamTree) :
    find? (names ++ [key]) tree =
      (find? names tree).bind fun node => get? key node.children := by
  induction names generalizing tree with
  | nil => exact (named rfl).elim
  | cons name rest ih =>
      match rest with
      | [] => rfl
      | next :: rest =>
          have more : next :: rest ≠ [] := List.cons_ne_nil next rest
          rw [List.cons_append, find?_cons (by simp), ih more, find?_cons more]

theorem sorted_describe {tree : ParamTree} (sorted : Sorted tree)
    (text : String) (names : List String) :
    Sorted (describe text names tree) := by
  induction names generalizing tree with
  | nil => exact sorted
  | cons name rest ih =>
      match rest with
      | [] => exact sorted_alter sorted name (sorted_below sorted name)
      | next :: rest =>
          exact sorted_alter sorted name (ih (sorted_below sorted name))

theorem below_alter {tree : ParamTree} (sorted : Sorted tree)
    (name query : String) (change : ParamNode → ParamNode) :
    below query (alter name change tree) =
      if query = name then (change ((get? name tree).getD {})).children
      else below query tree := by
  by_cases same : query = name
  · simp [below, get?_alter sorted, same]
  · simp [below, get?_alter sorted, same]

theorem descriptionAt?_cons {names : List String} (more : names ≠ [])
    (name : String) (tree : ParamTree) :
    descriptionAt? (name :: names) tree =
      descriptionAt? names (below name tree) := by
  rw [descriptionAt?, find?_cons more, descriptionAt?]

/-- A description is found at its own names, makes sure of the nodes on the way
there, and changes nothing else. -/
theorem descriptionAt?_describe {tree : ParamTree} (sorted : Sorted tree)
    (text : String) {names query : List String} (named : names ≠ [])
    (asked : query ≠ []) :
    descriptionAt? query (describe text names tree) =
      if query = names then some (some text)
      else if query <+: names then some (descriptionAt? query tree).join
      else descriptionAt? query tree := by
  induction names generalizing tree query with
  | nil => exact (named rfl).elim
  | cons name rest ih =>
      match rest, query with
      | [], [asked] =>
          by_cases same : asked = name
          · simp [describe, descriptionAt?, find?, get?_alter sorted, same]
          · simp [describe, descriptionAt?, find?, get?_alter sorted, same]
      | [], asked :: further :: others =>
          have more : further :: others ≠ [] := List.cons_ne_nil further others
          have longer : ¬ asked :: further :: others <+: [name] := by
            intro short
            simpa using short.length_le
          by_cases same : asked = name
          · subst same
            rw [describe, descriptionAt?_cons more, below_alter sorted,
              if_pos rfl, if_neg (by simp), if_neg longer,
              descriptionAt?_cons more, below]
          · simp [describe, descriptionAt?_cons, below_alter sorted, same]
      | next :: rest, [asked] =>
          by_cases same : asked = name
          · cases found : get? name tree with
            | none =>
                simp [describe, descriptionAt?, find?, get?_alter sorted, same,
                  found]
            | some node =>
                simp [describe, descriptionAt?, find?, get?_alter sorted, same,
                  found]
          · simp [describe, descriptionAt?, find?, get?_alter sorted, same]
      | next :: rest, asked :: further :: others =>
          have deeper := ih (sorted_below sorted name)
            (List.cons_ne_nil next rest) (List.cons_ne_nil further others)
          by_cases same : asked = name
          · subst same
            rw [descriptionAt?_cons (by simp), describe, below_alter sorted,
              if_pos rfl]
            rw [show describe text (next :: rest)
              ((get? asked tree).getD {}).children =
                describe text (next :: rest) (below asked tree) from rfl,
              deeper]
            simp [descriptionAt?_cons]
          · simp [describe, descriptionAt?_cons, below_alter sorted, same]

end ParamTree

end TagDoc
