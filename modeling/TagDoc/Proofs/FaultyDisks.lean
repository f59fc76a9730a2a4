import TagDoc.Disk
import TagDoc.Proofs.FileSystem

/-!
# Disks that fail

A faulty disk does what the file system behind it does, or refuses.  Whatever
it answers, creating directories changes no file, and a write changes the one
file that its path names, or nothing.
-/

namespace TagDoc

/-! ## Files that come up -/

namespace FileEntry

theorem file_of_at?_put {root value : FileEntry} {names query : List String}
    {content : FileContent} (bare : ∀ rest, rest ≠ [] → value.at? rest = none)
    (found : (root.put names value).at? query = some (.file content)) :
    (query = names ∧ value = .file content) ∨
      root.at? query = some (.file content) := by
  by_cases below : names <+: query
  · obtain ⟨rest, rfl⟩ := below
    rw [at?_append, at?_put_self, Option.bind_some] at found
    by_cases deeper : rest = []
    · subst deeper
      rw [at?_nil] at found
      exact .inl ⟨List.append_nil names, Option.some.inj found⟩
    · rw [bare rest deeper] at found
      cases found
  · by_cases above : query <+: names
    · obtain ⟨rest, rfl⟩ := above
      have deeper : rest ≠ [] := by
        rintro rfl
        exact below (by simp)
      obtain ⟨entries, directory⟩ := at?_put_above root value deeper
      rw [found] at directory
      cases directory
    · rw [at?_put_beside root value below above] at found
      exact .inr found

end FileEntry

namespace FileSystem

theorem names_of_follow {root : FileEntry} {here segments place : List String}
    (leads : follow root here segments = .ok place) :
    place = (segments.filter fun segment =>
        segment != "" && segment != ".").foldl
      (fun here segment =>
        if segment == ".." then here.dropLast else here ++ [segment])
      here := by
  induction segments generalizing here with
  | nil => exact (Except.ok.inj leads).symm
  | cons segment rest ih =>
      rw [follow] at leads
      split at leads
      · cases leads
      · cases leads
      · split at leads
        · next unnamed =>
            have dropped : (segment != "" && segment != ".") = false := by
              rcases Bool.or_eq_true_iff.mp unnamed with empty | dot
              · simp [bne, empty]
              · simp [bne, dot]
            rw [List.filter_cons, dropped]
            exact ih leads
        · next named =>
            have kept : (segment != "" && segment != ".") = true := by
              simpa [bne] using named
            rw [List.filter_cons, kept, if_pos rfl, List.foldl_cons]
            split at leads
            · next up =>
                rw [if_pos up]
                exact ih leads
            · next down =>
                split at leads
                · cases leads
                · split at leads
                  · cases leads
                  · rw [if_neg down]
                    exact ih leads

theorem names_of_locate {system : FileSystem} {path : String}
    {place : List String} (located : system.locate path = .ok place) :
    place = system.names path :=
  names_of_follow (locate_eq_ok.mp located).2

theorem Keeps.names {spared : List String → Prop} {old new : FileSystem}
    (keeps : Keeps spared old new) (path : String) :
    new.names path = old.names path := by
  rw [FileSystem.names, FileSystem.names, keeps.origin path]

/-- After a write no file has come up but the one that was written. -/
theorem file_of_write {system after : FileSystem} {path text : String}
    (written : system.write path text = .ok after) {names : List String}
    {content : FileContent}
    (found : after.root.at? names = some (.file content)) :
    (names = after.names path ∧ content = .readable text) ∨
      system.root.at? names = some (.file content) := by
  obtain ⟨above, name, naming, located, free, rfl⟩ := write_eq_ok written
  have sound := (locateLast_eq_ok.mp located).1
  have leads : FileSystem.locate { system with
      root := system.root.put (above ++ [name]) (.file (.readable text)) } path =
        .ok (above ++ [name]) :=
    locate_eq_ok.mpr ⟨sound, follow_put naming located free⟩
  have bare : ∀ rest, rest ≠ [] →
      (FileEntry.file (.readable text)).at? rest = none := fun _ deeper =>
    FileEntry.at?_file _ deeper
  rcases FileEntry.file_of_at?_put bare found with ⟨here, same⟩ | before
  · cases same
    exact .inl ⟨here.trans (names_of_locate leads), rfl⟩
  · exact .inr before

/-- The new file system has more directories at most. -/
structure SameFiles (old new : FileSystem) : Prop where
  keeps : ∀ spared, Keeps spared old new
  file : ∀ names content, new.root.at? names = some (.file content) →
    old.root.at? names = some (.file content)

namespace SameFiles

theorem refl (system : FileSystem) : SameFiles system system :=
  ⟨fun _ => .refl system, fun _ _ found => found⟩

theorem trans {first second third : FileSystem}
    (before : SameFiles first second) (after : SameFiles second third) :
    SameFiles first third :=
  ⟨fun spared => (before.keeps spared).trans (after.keeps spared),
    fun names content found =>
      before.file names content (after.file names content found)⟩

end SameFiles

theorem sameFiles_createDirectory {system after : FileSystem} {path : String}
    {segments : List String}
    (created : system.createDirectory path segments = .ok after) :
    SameFiles system after := by
  refine ⟨fun _ => keeps_createDirectory created, fun query content found => ?_⟩
  rw [createDirectory] at created
  obtain ⟨⟨names, name⟩, _, made⟩ := bind_eq_ok.mp created
  dsimp only at made
  split at made
  · cases made
  · split at made
    · cases made
    · cases made
      have bare : ∀ rest, rest ≠ [] →
          (FileEntry.directory []).at? rest = none := fun _ deeper =>
        FileEntry.at?_empty deeper
      rcases FileEntry.file_of_at?_put bare found with ⟨_, ⟨⟩⟩ | before
      exact before

theorem sameFiles_createDirectories (path : String) (system : FileSystem) :
    SameFiles system (createDirectories path system).2 :=
  related_createDirectories .refl .trans sameFiles_createDirectory system path

end FileSystem

/-! ## Faults -/

namespace Disk

variable {δ : Type}

/-- A disk with a file system behind it, which it shows but for refusals.  What
is read and written in full is read and written there; a refused write changes
nothing, and when directories are refused some further up may have been
created. -/
structure Faulty (disk : Disk δ) (view : δ → FileSystem) : Prop where
  directories : ∀ path files, ∃ made,
    view (disk.createDirectories path files).2 =
      (FileSystem.createDirectories made (view files)).2
  read : ∀ path files text, disk.read path files = .ok text →
    (view files).read path = .ok text
  written : ∀ path text files changed,
    disk.write path text files = (.ok (), changed) →
      (view files).write path text = .ok (view changed)
  refused : ∀ path text files error changed,
    disk.write path text files = (.error error, changed) →
      view changed = view files

/-- The disk whose operations follow a list of faults: one that is due refuses
the next attempt to create directories or to write, which changes nothing. -/
def withFaults (disk : Disk δ) : Disk (δ × List (Option FileError)) where
  createDirectories path
    | (files, some error :: rest) => (.error error, (files, rest))
    | (files, faults) =>
        let (result, files) := disk.createDirectories path files
        (result, (files, faults.tail))
  isFile path := fun (files, _) => disk.isFile path files
  read path := fun (files, _) => disk.read path files
  write path text
    | (files, some error :: rest) => (.error error, (files, rest))
    | (files, faults) =>
        let (result, files) := disk.write path text files
        (result, (files, faults.tail))

theorem faulty_disk : FileSystem.disk.Faulty id where
  directories path files := ⟨path, rfl⟩
  read path files text content := content
  written path text files changed written := by
    rw [FileSystem.disk] at written
    dsimp only at written
    split at written
    · cases written
      assumption
    · cases written
  refused path text files error changed refused := by
    rw [FileSystem.disk] at refused
    dsimp only at refused
    split at refused
    · cases refused
    · cases refused
      rfl

theorem Faulty.withFaults {disk : Disk δ} {view : δ → FileSystem}
    (faulty : disk.Faulty view) :
    disk.withFaults.Faulty fun files => view files.1 where
  directories path files := by
    obtain ⟨files, faults⟩ := files
    match faults with
    | some error :: rest => exact ⟨"", rfl⟩
    | none :: rest => exact faulty.directories path files
    | [] => exact faulty.directories path files
  read path files text content := faulty.read path files.1 text content
  written path text files changed written := by
    obtain ⟨files, faults⟩ := files
    have plain {later : List (Option FileError)}
        (made : ((disk.write path text files).1,
          ((disk.write path text files).2, later)) = (.ok (), changed)) :
        (view files).write path text = .ok (view changed.1) := by
      obtain ⟨answer, rfl⟩ := Prod.mk.inj made
      exact faulty.written path text files _ (Prod.ext answer rfl)
    match faults with
    | some error :: rest => cases written
    | none :: rest => exact plain written
    | [] => exact plain written
  refused path text files error changed refused := by
    obtain ⟨files, faults⟩ := files
    have plain {later : List (Option FileError)}
        (made : ((disk.write path text files).1,
          ((disk.write path text files).2, later)) = (.error error, changed)) :
        view changed.1 = view files := by
      obtain ⟨answer, rfl⟩ := Prod.mk.inj made
      exact faulty.refused path text files error _ (Prod.ext answer rfl)
    match faults with
    | some error :: rest =>
        cases refused
        rfl
    | none :: rest => exact plain refused
    | [] => exact plain refused

/-! ## Traces of faulty disks -/

section Traced

variable {disk : Disk δ} {view : δ → FileSystem} {path text : String}
  {files changed : δ × Trace}

theorem Faulty.traced_directories (faulty : disk.Faulty view) (path : String)
    (files : δ × Trace) :
    let made := (disk.traced.createDirectories path files).2
    FileSystem.SameFiles (view files.1) (view made.1) ∧
      made.2.written = files.2.written := by
  obtain ⟨made, same⟩ := faulty.directories path files.1
  refine ⟨?_, rfl⟩
  have shown : view (disk.traced.createDirectories path files).2.1 =
      (FileSystem.createDirectories made (view files.1)).2 := same
  rw [shown]
  exact FileSystem.sameFiles_createDirectories made (view files.1)

theorem write_traced (disk : Disk δ) (path text : String)
    (files : δ × Trace) :
    disk.traced.write path text files =
      let answered := disk.write path text files.1
      (answered.1,
        (answered.2, files.2.write path text answered.1.isOk)) := rfl

/-- A text that was written in full is in the file system and in the trace. -/
theorem Faulty.traced_written (faulty : disk.Faulty view)
    (written : disk.traced.write path text files = (.ok (), changed)) :
    (view files.1).write path text = .ok (view changed.1) ∧
      changed.2.written = files.2.written.put path text := by
  rw [write_traced] at written
  cases answer : disk.write path text files.1 with
  | mk result after =>
      rw [answer] at written
      cases written
      exact ⟨faulty.written path text files.1 after answer, rfl⟩

theorem Faulty.traced_refused (faulty : disk.Faulty view) {error : FileError}
    (refused : disk.traced.write path text files = (.error error, changed)) :
    view changed.1 = view files.1 ∧
      changed.2.written = files.2.written := by
  rw [write_traced] at refused
  cases answer : disk.write path text files.1 with
  | mk result after =>
      rw [answer] at refused
      cases refused
      exact ⟨faulty.refused path text files.1 error after answer, rfl⟩

end Traced

end Disk

end TagDoc
