import TagDoc.FileSystem

/-!
# Putting entries into file trees

An entry that is put below a sequence of names is found there, turns what
stands above it into directories, and leaves everything beside it alone.  A
tree grows when all its entries stay and stay of their kind.
-/

namespace TagDoc

namespace FileEntry

@[simp]
theorem at?_nil (entry : FileEntry) : entry.at? [] = some entry := by
  cases entry with
  | file content => rfl
  | directory entries => rfl

theorem at?_cons (entry : FileEntry) (name : String) (rest : List String) :
    entry.at? (name :: rest) = (entry.child? name).bind (at? rest) := rfl

theorem at?_append (entry : FileEntry) (first second : List String) :
    entry.at? (first ++ second) = (entry.at? first).bind (at? second) := by
  induction first generalizing entry with
  | nil => simp
  | cons name rest ih =>
      rw [List.cons_append, at?_cons, at?_cons]
      cases entry.child? name with
      | none => rfl
      | some child => exact ih child

theorem at?_append_singleton {entry : FileEntry} {names : List String}
    {entries : List (String × FileEntry)}
    (found : entry.at? names = some (.directory entries)) (name : String) :
    entry.at? (names ++ [name]) = Assoc.get? name entries := by
  rw [at?_append, found, Option.bind_some, at?_cons, child?]
  cases Assoc.get? name entries with
  | none => rfl
  | some child => simp

theorem at?_file (content : FileContent) {names : List String}
    (deeper : names ≠ []) : (file content).at? names = none := by
  match names with
  | _ :: _ => rfl

theorem at?_empty {names : List String} (deeper : names ≠ []) :
    (directory []).at? names = none := by
  match names with
  | _ :: _ => rfl

theorem directory_of_at? {entry value : FileEntry} {names rest : List String}
    (deeper : rest ≠ []) (found : entry.at? (names ++ rest) = some value) :
    ∃ entries, entry.at? names = some (.directory entries) := by
  rw [at?_append] at found
  obtain ⟨here, above, below⟩ := Option.bind_eq_some_iff.mp found
  cases here with
  | file content => simp [at?_file content deeper] at below
  | directory entries => exact ⟨entries, above⟩

/-! ## One entry more -/

/-- The entries of a directory; a file has none. -/
def entries : FileEntry → List (String × FileEntry)
  | .file _ => []
  | .directory entries => entries

theorem child?_eq (entry : FileEntry) (name : String) :
    entry.child? name = Assoc.get? name entry.entries := by
  cases entry with
  | file content => rfl
  | directory entries => rfl

theorem put_cons (entry : FileEntry) (name : String) (rest : List String)
    (value : FileEntry) :
    entry.put (name :: rest) value =
      .directory (Assoc.put name
        (((entry.child? name).getD (.directory [])).put rest value)
        entry.entries) := by
  cases entry with
  | file content => rfl
  | directory entries => rfl

theorem at?_put_self (entry : FileEntry) (names : List String)
    (value : FileEntry) : (entry.put names value).at? names = some value := by
  induction names generalizing entry with
  | nil =>
      cases entry with
      | file content => simp [put]
      | directory entries => simp [put]
  | cons name rest ih =>
      rw [put_cons, at?_cons, child?, Assoc.get?_put_self, Option.bind_some, ih]

theorem at?_put_above (entry value : FileEntry) {names rest : List String}
    (deeper : rest ≠ []) :
    ∃ entries, (entry.put (names ++ rest) value).at? names =
      some (.directory entries) :=
  directory_of_at? deeper (at?_put_self entry (names ++ rest) value)

theorem at?_put_beside (entry value : FileEntry) {names query : List String}
    (notBelow : ¬ names <+: query) (notAbove : ¬ query <+: names) :
    (entry.put names value).at? query = entry.at? query := by
  induction names generalizing entry query with
  | nil => exact (notBelow List.nil_prefix).elim
  | cons name rest ih =>
      match query with
      | [] => exact (notAbove List.nil_prefix).elim
      | asked :: others =>
          rw [put_cons, at?_cons, at?_cons, child?]
          by_cases same : asked = name
          · subst same
            have below : ¬ rest <+: others := by simpa using notBelow
            have above : ¬ others <+: rest := by simpa using notAbove
            rw [Assoc.get?_put_self, Option.bind_some, ih _ below above]
            cases entry.child? asked with
            | some child => rfl
            | none =>
                have deeper : others ≠ [] := by
                  intro same
                  subst same
                  exact above List.nil_prefix
                rw [Option.getD_none, at?_empty deeper, Option.bind_none]
          · rw [Assoc.get?_put_of_ne _ _ same, ← child?_eq]

/-! ## Growth -/

/-- All entries of the old tree are in the new one, files as files and
directories as directories. -/
def Grows (old new : FileEntry) : Prop :=
  ∀ names entry, old.at? names = some entry →
    ∃ later, new.at? names = some later ∧
      later.isDirectory = entry.isDirectory

theorem Grows.refl (entry : FileEntry) : Grows entry entry :=
  fun _ found present => ⟨found, present, rfl⟩

theorem Grows.trans {first second third : FileEntry}
    (before : Grows first second) (after : Grows second third) :
    Grows first third := by
  intro names entry present
  obtain ⟨middle, there, same⟩ := before names entry present
  obtain ⟨later, still, alike⟩ := after names middle there
  exact ⟨later, still, alike.trans same⟩

theorem Grows.directory {old new : FileEntry} (grows : Grows old new)
    {names : List String} {entries : List (String × FileEntry)}
    (found : old.at? names = some (.directory entries)) :
    ∃ later, new.at? names = some (.directory later) := by
  obtain ⟨entry, there, kind⟩ := grows names _ found
  cases entry with
  | file content => simp [isDirectory] at kind
  | directory later => exact ⟨later, there⟩

section Put

variable {root value : FileEntry} {names : List String} {name : String}
  {entries : List (String × FileEntry)}

/-- The place of a new entry: it stands in a directory, and if it is taken, by
a file that another file replaces. -/
def Free (root : FileEntry) (names : List String) (name : String)
    (value : FileEntry) : Prop :=
  (∃ entries, root.at? names = some (.directory entries)) ∧
    (root.at? (names ++ [name]) = none ∨
      ∃ content, root.at? (names ++ [name]) = some (.file content) ∧
        value.isDirectory = false)

theorem Free.nothing_below (free : Free root names name value)
    {rest : List String} (deeper : rest ≠ []) :
    root.at? (names ++ [name] ++ rest) = none := by
  rw [at?_append]
  rcases free.2 with nothing | ⟨content, taken, _⟩
  · rw [nothing, Option.bind_none]
  · rw [taken, Option.bind_some, at?_file content deeper]

/-- Every other file keeps its content. -/
theorem Free.at?_put_file (free : Free root names name value)
    {query : List String} {content : FileContent}
    (found : root.at? query = some (.file content))
    (other : query ≠ names ++ [name]) :
    (root.put (names ++ [name]) value).at? query = some (.file content) := by
  have notBelow : ¬ names ++ [name] <+: query := by
    intro leads
    obtain ⟨rest, rfl⟩ := leads
    have deeper : rest ≠ [] := by
      intro same
      subst same
      exact other (by simp)
    rw [free.nothing_below deeper] at found
    cases found
  have notAbove : ¬ query <+: names ++ [name] := by
    intro leads
    rcases List.prefix_concat_iff.mp leads with
      same | ⟨rest, rfl⟩
    · exact other (by simpa using same)
    · obtain ⟨⟨entries, above⟩, _⟩ := free
      by_cases deeper : rest = []
      · subst deeper
        rw [List.append_nil, found] at above
        cases above
      · obtain ⟨others, directory⟩ := directory_of_at? deeper above
        rw [found] at directory
        cases directory
  rw [at?_put_beside root value notBelow notAbove, found]

theorem Free.grows_put (free : Free root names name value) :
    Grows root (root.put (names ++ [name]) value) := by
  intro query entry found
  by_cases below : names ++ [name] <+: query
  · obtain ⟨rest, rfl⟩ := below
    by_cases deeper : rest = []
    · subst deeper
      rw [List.append_nil] at found ⊢
      rcases free.2 with nothing | ⟨content, taken, kind⟩
      · rw [nothing] at found
        cases found
      · rw [taken] at found
        cases found
        exact ⟨value, at?_put_self root _ value, kind⟩
    · rw [free.nothing_below deeper] at found
      cases found
  · by_cases above : query <+: names ++ [name]
    · rcases List.prefix_concat_iff.mp above with
        same | ⟨rest, rfl⟩
      · exact (below (by simp [same])).elim
      · obtain ⟨⟨entries, directory⟩, _⟩ := free
        have kind : entry.isDirectory = true := by
          by_cases deeper : rest = []
          · subst deeper
            rw [List.append_nil, found] at directory
            cases directory
            rfl
          · obtain ⟨others, there⟩ := directory_of_at? deeper directory
            rw [found] at there
            cases there
            rfl
        have there : ∃ later,
            (root.put (query ++ (rest ++ [name])) value).at? query =
              some (.directory later) := at?_put_above root value (by simp)
        obtain ⟨later, there⟩ := there
        rw [← List.append_assoc] at there
        exact ⟨_, there, by rw [kind]; rfl⟩
    · exact ⟨entry, by rw [at?_put_beside root value below above, found], rfl⟩

end Put

end FileEntry

end TagDoc
