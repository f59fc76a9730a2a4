import TagDoc.Proofs.FileSystem

/-!
# Directories that are there

Where the directories of a path were created, creating them again succeeds and
changes nothing, also after other things were put into the tree:
`createDirectories_again`.
-/

namespace TagDoc

namespace FileSystem

variable {system after : FileSystem} {path : String}

theorem leadsToDirectory_iff {segments : List String} :
    system.leadsToDirectory path segments = true ↔
      ∃ names entries,
        follow system.root (system.origin path) segments = .ok names ∧
          system.root.at? names = some (.directory entries) := by
  rw [leadsToDirectory]
  cases follow system.root (system.origin path) segments with
  | error error => simp
  | ok names =>
      cases found : system.root.at? names with
      | none => simp [found]
      | some entry =>
          cases entry with
          | file content => simp [found, FileEntry.isDirectory]
          | directory entries => simp [found, FileEntry.isDirectory]

theorem leadsToDirectory_of_keeps {spared : List String → Prop}
    {segments : List String} (keeps : Keeps spared system after)
    (leads : system.leadsToDirectory path segments = true) :
    after.leadsToDirectory path segments = true := by
  obtain ⟨names, entries, reaches, directory⟩ := leadsToDirectory_iff.mp leads
  obtain ⟨later, there⟩ := keeps.grows.directory directory
  refine leadsToDirectory_iff.mpr ⟨names, later, ?_, there⟩
  rw [keeps.origin path]
  exact follow_of_grows keeps.grows reaches

/-! ## One directory -/

/-- A segment as it stands in the named segments of a path. -/
def Named (segment : String) : Prop :=
  segment ≠ "" ∧ segment ≠ "."

theorem named_of_mem {segment : String}
    (member : segment ∈ FilePath.namedSegments path) : Named segment := by
  rw [FilePath.namedSegments, List.mem_filter] at member
  simpa [Named] using member.2

section One

variable {name : String} {before : List String} (named : Named name)

include named

theorem createDirectory_of_leads (sound : checkPath path = .ok ())
    (leads : system.leadsToDirectory path (before ++ [name]) = true) :
    system.createDirectory path (before ++ [name]) = .error .alreadyExists := by
  obtain ⟨names, entries, reaches, _⟩ := leadsToDirectory_iff.mp leads
  rw [follow_append] at reaches
  obtain ⟨middle, first, last⟩ := bind_eq_ok.mp reaches
  have within : ∃ entries, system.root.at? middle =
      some (.directory entries) := by
    rw [follow] at last
    cases found : system.root.at? middle with
    | none => simp [found] at last
    | some entry =>
        cases entry with
        | file content => simp [found] at last
        | directory entries => exact ⟨entries, rfl⟩
  have short : name.utf8ByteSize ≤ nameLimit := by
    by_cases up : name = ".."
    · subst up
      decide
    · exact ((follow_naming ⟨named.1, named.2, up⟩).mp last).2.2.1
  have located : system.locateLast path (before ++ [name]) =
      .ok (middle, name) := by
    refine locateLast_eq_ok.mpr ⟨sound, ?_, ?_, within, short⟩
    · rw [List.getLast?_concat, Option.getD_some]
    · rw [List.dropLast_concat]
      exact first
  have answer : system.createDirectory path (before ++ [name]) =
      if name == "" || name == ".." then .error .alreadyExists
      else if (system.root.at? (middle ++ [name])).isSome then
        .error .alreadyExists
      else
        .ok { system with
          root := system.root.put (middle ++ [name]) (.directory []) } := by
    rw [createDirectory, located]
    rfl
  rw [answer]
  by_cases up : name = ".."
  · simp [up]
  · have taken := ((follow_naming ⟨named.1, named.2, up⟩).mp last).2.2.2
    simp [up, named.1, taken]

theorem leads_of_createDirectory
    (created : system.createDirectory path (before ++ [name]) = .ok after) :
    after.leadsToDirectory path (before ++ [name]) = true := by
  rw [createDirectory] at created
  obtain ⟨⟨names, final⟩, located, made⟩ := bind_eq_ok.mp created
  obtain ⟨_, last, _, within, _⟩ := locateLast_eq_ok.mp located
  rw [List.getLast?_concat, Option.getD_some] at last
  subst last
  dsimp only at made
  split at made
  · cases made
  · next special =>
      simp only [Bool.or_eq_true, beq_iff_eq, not_or] at special
      split at made
      · cases made
      · next absent =>
          cases made
          have nothing : system.root.at? (names ++ [name]) = none := by
            simpa using absent
          exact leadsToDirectory_iff.mpr
            ⟨_, [], follow_put ⟨named.1, named.2, special.2⟩ located
              ⟨within, .inl nothing⟩, FileEntry.at?_put_self _ _ _⟩

end One

/-! ## All directories of a path -/

theorem ensureDirectory_of_leads {name : String} {before : List String}
    (named : Named name) (sound : checkPath path = .ok ())
    (leads : system.leadsToDirectory path (name :: before).reverse = true) :
    ensureDirectory path (name :: before) system = (.ok (), system) := by
  have there : system.createDirectory path (name :: before).reverse =
      .error .alreadyExists := by
    rw [List.reverse_cons] at leads ⊢
    exact createDirectory_of_leads named sound leads
  rw [ensureDirectory]
  dsimp only
  rw [there]
  dsimp only
  rw [if_pos leads]

theorem leads_of_ensureDirectory {name : String} {before : List String}
    (named : Named name)
    (ensured : ensureDirectory path (name :: before) system =
      (.ok (), after)) :
    after.leadsToDirectory path (name :: before).reverse = true := by
  cases ensureRun_of_ensureDirectory ensured with
  | created _ created =>
      rw [List.reverse_cons] at created ⊢
      exact leads_of_createDirectory named created
  | found _ leads => exact leads

/-- Directories that were created are there, and need not be created again. -/
theorem createDirectories_again {later : FileSystem}
    {spared : List String → Prop}
    (created : createDirectories path system = (.ok (), after))
    (keeps : Keeps spared after later) :
    createDirectories path later = (.ok (), later) := by
  unfold createDirectories at created ⊢
  split at created
  · next empty => rw [if_pos empty]
  · next given =>
      rw [if_neg given]
      cases sound : checkPath path with
      | error error =>
          rw [sound] at created
          cases created
      | ok _ =>
          rw [sound] at created
          dsimp only at created ⊢
          cases reversed : (FilePath.namedSegments path).reverse with
          | nil => rfl
          | cons name before =>
              rw [reversed] at created
              have named : Named name := by
                apply named_of_mem
                rw [← List.mem_reverse, reversed]
                exact List.mem_cons_self
              exact ensureDirectory_of_leads named sound
                (leadsToDirectory_of_keeps keeps
                  (leads_of_ensureDirectory named created))

end FileSystem

end TagDoc
