import TagDoc.Proofs.DiskStore
import TagDoc.Proofs.Overwriting

/-!
# What a failed save does to the page index

A save that fails before its page was written leaves the store as it was.  One
that fails with the index file has listed its page by then, so its key is
offered for links although the save is reported as failed:
`failed_save_pageIndex`.
-/

namespace TagDoc.DiskStore

variable {δ : Type}

/-- The save comes to write its page in full. -/
def WritesPage (disk : Disk δ) (draft : PageDraft) (store : DiskStore)
    (files : δ) : Prop :=
  ∃ first second,
    createParent disk (store.pagePath draft.key) files = (.ok (), first) ∧
      writeText disk (store.pagePath draft.key) draft.content first =
        (.ok (), second)

theorem pageIndex_withPage (store : DiskStore) (draft : PageDraft) :
    (store.withPage draft).pageIndex =
      Assoc.put draft.key (pageUrl store.baseUrl draft.key) store.pageIndex :=
  Assoc.map_put PageRecord.url draft.key _ store.index

theorem failed_save_cases {disk : Disk δ} {draft : PageDraft}
    {store after : DiskStore} {files changed : δ} {failure : Failure}
    (ran : save disk draft store files = (.error failure, after, changed)) :
    (¬ WritesPage disk draft store files ∧ after = store) ∨
      WritesPage disk draft store files ∧ after = store.withPage draft := by
  cases saveRun_of_save ran with
  | unprepared parent =>
      refine .inl ⟨?_, rfl⟩
      rintro ⟨first, second, made, _⟩
      cases parent.symm.trans made
  | unwritten parent page =>
      refine .inl ⟨?_, rfl⟩
      rintro ⟨first, second, made, written⟩
      cases parent.symm.trans made
      cases page.symm.trans written
  | unindexed parent page index =>
      exact .inr ⟨⟨_, _, parent, page⟩, rfl⟩

/-- A failed save leaves the page index as it was exactly if its page was not
written, or was listed with the same URL before; otherwise the index offers the
page from then on. -/
theorem failed_save_pageIndex {disk : Disk δ} {draft : PageDraft}
    {store after : DiskStore} {files changed : δ} {failure : Failure}
    (ran : save disk draft store files = (.error failure, after, changed)) :
    let url := pageUrl store.baseUrl draft.key
    (after.pageIndex = store.pageIndex ↔
      ¬ WritesPage disk draft store files ∨
        Assoc.get? draft.key store.pageIndex = some url) ∧
      (WritesPage disk draft store files →
        after.pageIndex = Assoc.put draft.key url store.pageIndex) := by
  intro url
  rcases failed_save_cases ran with ⟨unwritten, rfl⟩ | ⟨written, rfl⟩
  · exact ⟨iff_of_true rfl (.inl unwritten), fun written =>
      (unwritten written).elim⟩
  · rw [pageIndex_withPage]
    refine ⟨⟨fun same => .inr ?_, ?_⟩, fun _ => rfl⟩
    · rw [← same, Assoc.get?_put_self]
    · rintro (unwritten | listed)
      · exact (unwritten written).elim
      · exact Assoc.put_eq_self listed

/-- A page whose file cannot be written is not listed. -/
theorem failed_save_pageIndex_unwritten :
    let files := FileSystem.ofEntries [("docs/api/user.md", .directory [])]
    let draft : PageDraft := ⟨"api", "user", "x", 2⟩
    let store : DiskStore := { root := "docs" }
    (save FileSystem.disk draft store files).1 =
        .error (.write "docs/api/user.md" .isDirectory) ∧
      (save FileSystem.disk draft store files).2.1.pageIndex =
        store.pageIndex ∧
      ¬ WritesPage FileSystem.disk draft store files := by
  intro files draft store
  have refused : (save FileSystem.disk draft store files).1 =
      .error (.write "docs/api/user.md" .isDirectory) := by
    decide +kernel
  have unlisted : (save FileSystem.disk draft store files).2.1.pageIndex =
      store.pageIndex := by
    decide +kernel
  have absent : Assoc.get? draft.key store.pageIndex = none := rfl
  have ran (answer : Except Failure String × DiskStore × FileSystem)
      {failure : Failure} (refused : answer.1 = .error failure) :
      answer = (.error failure, answer.2.1, answer.2.2) :=
    Prod.ext refused rfl
  have law := (failed_save_pageIndex (ran _ refused)).1.mp unlisted
  refine ⟨refused, unlisted, law.resolve_right fun listed => ?_⟩
  cases absent.symm.trans listed

/-- Where the index file cannot be written, a failed save has listed its page
all the same. -/
theorem not_failed_save_unlisted :
    ¬ ∀ (root : String) (baseUrl : Option String) (start files : FileSystem)
        (store after : DiskStore) (draft : PageDraft) (failure : Failure)
        (changed : FileSystem),
      load FileSystem.disk root baseUrl start = (.ok store, files) →
      save FileSystem.disk draft store files =
        (.error failure, after, changed) →
      after.pageIndex = store.pageIndex := by
  intro kept
  have opened : (load FileSystem.disk "docs" none
      (FileSystem.ofEntries [("docs/pages.json", .directory [])])).1 =
        .ok { root := "docs" } := by
    decide +kernel
  have refused : (save FileSystem.disk ⟨"api", "user", "x", 2⟩
      { root := "docs" } (load FileSystem.disk "docs" none
        (FileSystem.ofEntries [("docs/pages.json", .directory [])])).2).1 =
          .error (.write "docs/pages.json" .isDirectory) := by
    decide +kernel
  have listed : (save FileSystem.disk ⟨"api", "user", "x", 2⟩
      { root := "docs" } (load FileSystem.disk "docs" none
        (FileSystem.ofEntries [("docs/pages.json", .directory [])])).2
        ).2.1.pageIndex ≠ ({ root := "docs" } : DiskStore).pageIndex := by
    decide +kernel
  exact listed (kept _ _ _ _ _ _ _ _ _ (Prod.ext opened rfl)
    (Prod.ext refused rfl))

end TagDoc.DiskStore
