import TagDoc.Proofs.FileTree
import TagDoc.Proofs.Results

/-!
# What file systems keep

Creating directories and writing files only puts new entries into the tree, so
every path that led somewhere leads there still, and every file but the one
that is written keeps its text.
-/

namespace TagDoc

namespace FileSystem

/-! ## Following segments -/

theorem follow_append (root : FileEntry) (here first second : List String) :
    follow root here (first ++ second) =
      (follow root here first).bind fun middle => follow root middle second := by
  induction first generalizing here with
  | nil => rfl
  | cons segment rest ih =>
      rw [List.cons_append, follow, follow]
      cases root.at? here with
      | none => rfl
      | some entry =>
          cases entry with
          | file content => rfl
          | directory entries =>
              dsimp only
              split
              · exact ih here
              · split
                · exact ih here.dropLast
                · split
                  · rfl
                  · split
                    · rfl
                    · exact ih (here ++ [segment])

/-- A segment that names an entry, and not the place itself or the one
above. -/
def Naming (segment : String) : Prop :=
  segment ≠ "" ∧ segment ≠ "." ∧ segment ≠ ".."

instance (segment : String) : Decidable (Naming segment) :=
  inferInstanceAs (Decidable (segment ≠ "" ∧ segment ≠ "." ∧ segment ≠ ".."))

theorem follow_naming {root : FileEntry} {here names : List String}
    {segment : String} (naming : Naming segment) :
    follow root here [segment] = .ok names ↔
      names = here ++ [segment] ∧
        (∃ entries, root.at? here = some (.directory entries)) ∧
        segment.utf8ByteSize ≤ nameLimit ∧
        (root.at? (here ++ [segment])).isSome := by
  obtain ⟨notEmpty, notSame, notAbove⟩ := naming
  rw [follow]
  cases found : root.at? here with
  | none => simp
  | some entry =>
      cases entry with
      | file content => simp
      | directory entries =>
          rw [FileEntry.at?_append_singleton found]
          by_cases long : nameLimit < segment.utf8ByteSize
          · simp [notEmpty, notSame, notAbove, long, Nat.not_le.mpr long]
          · cases child : Assoc.get? segment entries with
            | none => simp [notEmpty, notSame, notAbove, long, child]
            | some below =>
                have ends : follow root (here ++ [segment]) [] =
                    .ok (here ++ [segment]) := rfl
                simp only [notEmpty, notSame, notAbove, long, child, ends,
                  Nat.not_lt.mp long, beq_iff_eq, Bool.or_eq_true, or_self,
                  if_false, Option.isNone_some, Bool.false_eq_true,
                  Except.ok.injEq, Option.isSome_some, and_true, exists_eq',
                  FileEntry.directory.injEq, Option.some.injEq]
                exact eq_comm

/-- Segments that lead somewhere lead there still in a grown tree. -/
theorem follow_of_grows {old new : FileEntry} (grows : old.Grows new)
    {here segments names : List String}
    (leads : follow old here segments = .ok names) :
    follow new here segments = .ok names := by
  induction segments generalizing here with
  | nil => exact leads
  | cons segment rest ih =>
      rw [follow] at leads ⊢
      cases found : old.at? here with
      | none => simp [found] at leads
      | some entry =>
          cases entry with
          | file content => simp [found] at leads
          | directory entries =>
              obtain ⟨later, there⟩ := grows.directory found
              rw [found] at leads
              rw [there]
              dsimp only at leads ⊢
              split at leads
              · rw [if_pos ‹_›]
                exact ih leads
              · rw [if_neg ‹_›]
                split at leads
                · rw [if_pos ‹_›]
                  exact ih leads
                · rw [if_neg ‹_›]
                  split at leads
                  · cases leads
                  · rw [if_neg ‹_›]
                    split at leads
                    · cases leads
                    · next present =>
                        have old_child :=
                          FileEntry.at?_append_singleton found segment
                        have new_child :=
                          FileEntry.at?_append_singleton there segment
                        rw [← old_child] at present
                        obtain ⟨child, here_child⟩ :=
                          Option.ne_none_iff_exists'.mp
                            (mt Option.isNone_iff_eq_none.mpr present)
                        obtain ⟨kept, still, _⟩ := grows _ _ here_child
                        rw [← new_child, still]
                        exact ih leads

/-! ## Reading -/

theorem locate_eq_ok {system : FileSystem} {path : String}
    {names : List String} :
    system.locate path = .ok names ↔
      checkPath path = .ok () ∧
        follow system.root (system.origin path) (FilePath.segments path) =
          .ok names := by
  rw [locate, bind_eq_ok]
  exact ⟨fun ⟨_, sound, leads⟩ => ⟨sound, leads⟩,
    fun ⟨sound, leads⟩ => ⟨(), sound, leads⟩⟩

theorem read_eq_ok {system : FileSystem} {path text : String} :
    system.read path = .ok text ↔
      ∃ names, system.locate path = .ok names ∧
        system.root.at? names = some (.file (.readable text)) := by
  rw [FileSystem.read, bind_eq_ok]
  refine exists_congr fun names => and_congr_right fun _ => ?_
  constructor
  · intro content
    split at content
    · next found =>
        cases content
        exact found
    all_goals cases content
  · intro found
    rw [found]

theorem isFile_of_read {system : FileSystem} {path text : String}
    (read : system.read path = .ok text) : system.isFile path = true := by
  obtain ⟨names, located, found⟩ := read_eq_ok.mp read
  simp [isFile, entry?, located, found]

theorem place_of_locate {system : FileSystem} {path name : String}
    {above place : List String} (located : system.locate path = .ok place)
    (ends : FilePath.segments path = above ++ [name])
    (naming : Naming name) : ∃ names, place = names ++ [name] := by
  obtain ⟨_, leads⟩ := locate_eq_ok.mp located
  rw [ends, follow_append] at leads
  obtain ⟨middle, _, last⟩ := bind_eq_ok.mp leads
  exact ⟨middle, ((follow_naming naming).mp last).1⟩

/-! ## The frame -/

/-- The new file system has all entries of the old one, and the spared files
with the same content. -/
structure Keeps (spared : List String → Prop) (old new : FileSystem) :
    Prop where
  workingDirectory : new.workingDirectory = old.workingDirectory
  grows : old.root.Grows new.root
  files : ∀ names content, spared names →
    old.root.at? names = some (.file content) →
    new.root.at? names = some (.file content)

namespace Keeps

variable {spared : List String → Prop}

theorem refl (system : FileSystem) : Keeps spared system system :=
  ⟨rfl, .refl _, fun _ _ _ found => found⟩

theorem trans {first second third : FileSystem}
    (before : Keeps spared first second) (after : Keeps spared second third) :
    Keeps spared first third where
  workingDirectory := after.workingDirectory.trans before.workingDirectory
  grows := before.grows.trans after.grows
  files names content chosen found :=
    after.files names content chosen (before.files names content chosen found)

theorem mono {fewer : List String → Prop} {old new : FileSystem}
    (keeps : Keeps spared old new)
    (among : ∀ names, fewer names → spared names) : Keeps fewer old new where
  workingDirectory := keeps.workingDirectory
  grows := keeps.grows
  files names content chosen found :=
    keeps.files names content (among names chosen) found

theorem origin {old new : FileSystem} (keeps : Keeps spared old new)
    (path : String) : new.origin path = old.origin path := by
  rw [FileSystem.origin, FileSystem.origin, keeps.workingDirectory]

theorem locate {old new : FileSystem} (keeps : Keeps spared old new)
    {path : String} {names : List String}
    (located : old.locate path = .ok names) : new.locate path = .ok names := by
  obtain ⟨sound, leads⟩ := locate_eq_ok.mp located
  rw [← keeps.origin path] at leads
  exact locate_eq_ok.mpr ⟨sound, follow_of_grows keeps.grows leads⟩

theorem read {old new : FileSystem} (keeps : Keeps spared old new)
    {path text name : String} {above : List String}
    (ends : FilePath.segments path = above ++ [name]) (naming : Naming name)
    (chosen : ∀ names, spared (names ++ [name]))
    (content : old.read path = .ok text) : new.read path = .ok text := by
  obtain ⟨place, located, found⟩ := read_eq_ok.mp content
  obtain ⟨names, rfl⟩ := place_of_locate located ends naming
  exact read_eq_ok.mpr
    ⟨_, keeps.locate located, keeps.files _ _ (chosen names) found⟩

end Keeps

/-! ## Writing -/

section Write

variable {system after : FileSystem} {path text : String}
  {segments names : List String} {name : String}

theorem locateLast_eq_ok :
    system.locateLast path segments = .ok (names, name) ↔
      checkPath path = .ok () ∧ segments.getLast?.getD "" = name ∧
        follow system.root (system.origin path) segments.dropLast = .ok names ∧
        (∃ entries, system.root.at? names = some (.directory entries)) ∧
        name.utf8ByteSize ≤ nameLimit := by
  rw [locateLast, bind_eq_ok]
  constructor
  · intro opened
    obtain ⟨_, sound, located⟩ := opened
    obtain ⟨reached, leads, found⟩ := bind_eq_ok.mp located
    split at found
    · next entries directory =>
        split at found
        · cases found
        · next short =>
            cases found
            exact ⟨sound, rfl, leads, ⟨entries, directory⟩,
              Nat.not_lt.mp short⟩
    · cases found
    · cases found
  · intro parts
    obtain ⟨sound, rfl, leads, ⟨entries, directory⟩, short⟩ := parts
    refine ⟨(), sound, bind_eq_ok.mpr ⟨names, leads, ?_⟩⟩
    rw [directory]
    exact if_neg (Nat.not_lt.mpr short)

theorem write_eq_ok (written : system.write path text = .ok after) :
    ∃ names name, Naming name ∧
      system.locateLast path (FilePath.segments path) = .ok (names, name) ∧
      system.root.Free names name (.file (.readable text)) ∧
      after = { system with
        root := system.root.put (names ++ [name]) (.file (.readable text)) } := by
  rw [write] at written
  obtain ⟨⟨names, name⟩, located, made⟩ := bind_eq_ok.mp written
  obtain ⟨_, _, _, above, _⟩ := locateLast_eq_ok.mp located
  dsimp only at made
  split at made
  · cases made
  · next special =>
      simp only [Bool.or_eq_true, beq_iff_eq, not_or, and_assoc] at special
      split at made
      · cases made
      · next free =>
          cases made
          refine ⟨names, name, special, located, ⟨above, ?_⟩, rfl⟩
          cases found : system.root.at? (names ++ [name]) with
          | none => exact .inl rfl
          | some entry =>
              cases entry with
              | file content => exact .inr ⟨content, rfl, rfl⟩
              | directory entries => exact (free entries found).elim

theorem keeps_put {spared : List String → Prop} {value : FileEntry}
    (free : system.root.Free names name value)
    (replaced : ∀ content,
      system.root.at? (names ++ [name]) = some (.file content) →
        ¬ spared (names ++ [name])) :
    Keeps spared system
      { system with root := system.root.put (names ++ [name]) value } where
  workingDirectory := rfl
  grows := free.grows_put
  files query content chosen found := by
    refine free.at?_put_file found ?_
    intro same
    subst same
    exact replaced content found chosen

theorem exists_segments (path : String) :
    ∃ above name, FilePath.segments path = above ++ [name] := by
  have some_segment : FilePath.segments path ≠ [] := by
    simp [FilePath.segments]
  exact ⟨_, _, (List.dropLast_concat_getLast some_segment).symm⟩

theorem follow_put {value : FileEntry} (naming : Naming name)
    (located : system.locateLast path segments = .ok (names, name))
    (free : system.root.Free names name value) :
    follow (system.root.put (names ++ [name]) value) (system.origin path)
      segments = .ok (names ++ [name]) := by
  obtain ⟨_, last, leads, ⟨entries, directory⟩, short⟩ :=
    locateLast_eq_ok.mp located
  have ends : segments = segments.dropLast ++ [name] := by
    cases final : segments.getLast? with
    | none =>
        rw [final] at last
        exact (naming.1 last.symm).elim
    | some segment =>
        rw [final, Option.getD_some] at last
        rw [← last]
        obtain ⟨above, rfl⟩ := List.getLast?_eq_some_iff.mp final
        rw [List.dropLast_concat]
  have here := FileEntry.at?_put_self system.root (names ++ [name]) value
  obtain ⟨others, still⟩ := free.grows_put.directory directory
  have before := follow_of_grows free.grows_put leads
  have final_step := (follow_naming naming).mpr
    ⟨rfl, ⟨others, still⟩, short, Option.isSome_of_eq_some here⟩
  rw [ends, follow_append]
  exact (congrArg (Except.bind · _) before).trans final_step

/-- A written text has a place to which its path leads, and all files at other
places stay as they are. -/
theorem place_of_write (written : system.write path text = .ok after) :
    ∃ place, after.locate path = .ok place ∧
      after.root.at? place = some (.file (.readable text)) ∧
      Keeps (· ≠ place) system after := by
  obtain ⟨names, name, naming, located, free, rfl⟩ := write_eq_ok written
  have sound := (locateLast_eq_ok.mp located).1
  refine ⟨names ++ [name],
    locate_eq_ok.mpr ⟨sound, follow_put naming located free⟩,
    FileEntry.at?_put_self system.root _ _, keeps_put free ?_⟩
  intro content found other
  exact other rfl

theorem read_of_write (written : system.write path text = .ok after) :
    after.read path = .ok text := by
  obtain ⟨place, located, found, _⟩ := place_of_write written
  exact read_eq_ok.mpr ⟨place, located, found⟩

theorem keeps_write {spared : List String → Prop}
    (written : system.write path text = .ok after)
    (other : ∀ above name, FilePath.segments path = above ++ [name] →
      ∀ names, ¬ spared (names ++ [name])) :
    Keeps spared system after := by
  obtain ⟨names, name, _, located, free, rfl⟩ := write_eq_ok written
  obtain ⟨above, final, ends⟩ := exists_segments path
  obtain ⟨_, last, _⟩ := locateLast_eq_ok.mp located
  rw [ends, List.getLast?_concat, Option.getD_some] at last
  subst last
  exact keeps_put free fun _ _ => other above final ends names

theorem keeps_createDirectory {spared : List String → Prop}
    (created : system.createDirectory path segments = .ok after) :
    Keeps spared system after := by
  rw [createDirectory] at created
  obtain ⟨⟨names, name⟩, located, made⟩ := bind_eq_ok.mp created
  obtain ⟨_, _, _, above, _⟩ := locateLast_eq_ok.mp located
  dsimp only at made
  split at made
  · cases made
  · split at made
    · cases made
    · next absent =>
        cases made
        have nothing : system.root.at? (names ++ [name]) = none := by
          simpa using absent
        refine keeps_put ⟨above, .inl nothing⟩ ?_
        intro content found
        rw [nothing] at found
        cases found

end Write

/-! ## Directories -/

/-- How a directory comes to be there, or not: it is created or found in a file
system in which the directories above it may have been created before. -/
inductive EnsureRun (path : String) (name : String) (before : List String)
    (system : FileSystem) : Except FileError Unit → FileSystem → Prop where
  | created {middle after : FileSystem} :
      middle = system ∨ middle = (ensureDirectory path before system).2 →
      middle.createDirectory path (name :: before).reverse = .ok after →
      EnsureRun path name before system (.ok ()) after
  | found {middle : FileSystem} :
      middle = system ∨ middle = (ensureDirectory path before system).2 →
      middle.leadsToDirectory path (name :: before).reverse = true →
      EnsureRun path name before system (.ok ()) middle
  | refused {middle : FileSystem} {error : FileError} :
      middle = system ∨ middle = (ensureDirectory path before system).2 →
      EnsureRun path name before system (.error error) middle

theorem ensureRun_of_ensureDirectory {path name : String}
    {before : List String} {system after : FileSystem}
    {result : Except FileError Unit}
    (ensured : ensureDirectory path (name :: before) system =
      (result, after)) :
    EnsureRun path name before system result after := by
  have accepted {middle : FileSystem} {error : FileError}
      (above : middle = system ∨
        middle = (ensureDirectory path before system).2)
      (taken : (if middle.leadsToDirectory path (name :: before).reverse then
          ((.ok (), middle) : Except FileError Unit × FileSystem)
        else (.error error, middle)) = (result, after)) :
      EnsureRun path name before system result after := by
    split at taken
    · next leads =>
        cases taken
        exact .found above leads
    · cases taken
      exact .refused above
  rw [ensureDirectory] at ensured
  dsimp only at ensured
  cases first : system.createDirectory path (name :: before).reverse with
  | ok second =>
      rw [first] at ensured
      cases ensured
      exact .created (.inl rfl) first
  | error error =>
      rw [first] at ensured
      cases error with
      | notFound =>
          dsimp only at ensured
          cases ran : ensureDirectory path before system with
          | mk made middle =>
              have above : middle = (ensureDirectory path before system).2 := by
                rw [ran]
              rw [ran] at ensured
              cases made with
              | error error =>
                  cases ensured
                  exact .refused (.inr above)
              | ok _ =>
                  dsimp only at ensured
                  cases second : middle.createDirectory path
                      (name :: before).reverse with
                  | ok third =>
                      rw [second] at ensured
                      cases ensured
                      exact .created (.inr above) second
                  | error error =>
                      rw [second] at ensured
                      exact accepted (.inr above) ensured
      | _ => exact accepted (.inl rfl) ensured

section Relations

variable {related : FileSystem → FileSystem → Prop}
  (refl : ∀ system, related system system)
  (trans : ∀ {first second third}, related first second →
    related second third → related first third)
  (creates : ∀ {system after : FileSystem} {path segments},
    system.createDirectory path segments = .ok after → related system after)

include refl trans creates

theorem related_ensureDirectory (system : FileSystem) (path : String)
    (reversed : List String) :
    related system (ensureDirectory path reversed system).2 := by
  induction reversed generalizing system with
  | nil => exact refl system
  | cons name before ih =>
      have kept {middle : FileSystem} (above : middle = system ∨
          middle = (ensureDirectory path before system).2) :
          related system middle := by
        rcases above with rfl | rfl
        · exact refl middle
        · exact ih system
      cases ensured : ensureDirectory path (name :: before) system with
      | mk result after =>
          cases ensureRun_of_ensureDirectory ensured with
          | created above created => exact trans (kept above) (creates created)
          | found above _ => exact kept above
          | refused above => exact kept above

/-- What the creation of one directory keeps, that of several keeps. -/
theorem related_createDirectories (system : FileSystem) (path : String) :
    related system (createDirectories path system).2 := by
  unfold createDirectories
  split
  · exact refl system
  · cases checkPath path with
    | error error => exact refl system
    | ok _ => exact related_ensureDirectory refl trans creates system path _

end Relations

theorem keeps_createDirectories {spared : List String → Prop}
    (system : FileSystem) (path : String) :
    Keeps spared system (createDirectories path system).2 :=
  related_createDirectories .refl .trans keeps_createDirectory system path

end FileSystem

end TagDoc
