import TagDoc.Proofs.CommentLayout

/-!
# Sections of a block

A tag line ends what stands before it: the lines before a tag line and the lines
from there on are read for themselves.  So a block may be cut before any of its
tag lines, and the lines of one tag may be changed, added or taken away without
any effect on the description and the other tags.
-/

namespace TagDoc.CommentBlock

/-! ## Tag lines -/

theorem openTag?_of_opensTag {line : List Char} (opens : opensTag line = true) :
    ∃ tag, openTag? line = some tag := by
  unfold opensTag at opens
  split at opens
  · next letter rest =>
      rw [openTag?, tagLine?, if_pos opens]
      exact ⟨_, rfl⟩
  · cases opens

/-- A text whose first line is a tag line. -/
def startsTag (text : List Char) : Bool :=
  (contentLines text).head?.any opensTag

/-- The number of tag lines of a text. -/
def tagLineCount (text : List Char) : Nat :=
  (contentLines text).countP opensTag

theorem fullLines_of_startsTag {text : List Char}
    (starts : startsTag text = true) :
    ∃ line rest, fullLines text = line :: rest ∧ opensTag line = true := by
  obtain ⟨blank, _, lines⟩ := fullLines_eq [] text List.not_mem_nil
  obtain ⟨line, first, opens⟩ := Option.any_eq_true _ _ |>.mp starts
  obtain ⟨rest, read⟩ := List.head?_eq_some_iff.mp first
  refine ⟨line, rest ++ blank, ?_, opens⟩
  have whole : fullLines text = contentLines text ++ blank := lines
  rw [whole, read, List.cons_append]

/-! ## Dividing lines before a tag line -/

theorem splitTags_unopened {line : List Char} (plain : openTag? line = none)
    (rest : List (List Char)) :
    splitTags (line :: rest) =
      (line :: (splitTags rest).1, (splitTags rest).2) := by
  rw [splitTags]
  simp only [plain]

theorem splitTags_append_tagged {line : List Char}
    (opens : opensTag line = true) (first rest : List (List Char)) :
    splitTags (first ++ line :: rest) =
      ((splitTags first).1,
        (splitTags first).2 ++ (splitTags (line :: rest)).2) := by
  obtain ⟨tag, opened⟩ := openTag?_of_opensTag opens
  induction first with
  | nil =>
      rw [List.nil_append, splitTags_opened opened]
      rfl
  | cons before first ih =>
      rw [List.cons_append]
      cases found : openTag? before with
      | some earlier =>
          rw [splitTags_opened found, splitTags_opened found, ih]
          rfl
      | none => rw [splitTags_unopened found, splitTags_unopened found, ih]

theorem length_splitTags (lines : List (List Char)) :
    (splitTags lines).2.length = lines.countP opensTag := by
  induction lines with
  | nil => rfl
  | cons line rest ih =>
      cases opens : opensTag line with
      | true =>
          obtain ⟨tag, opened⟩ := openTag?_of_opensTag opens
          rw [splitTags_opened opened, List.length_cons, ih,
            List.countP_cons_of_pos opens]
      | false =>
          have unopened := openTag?_of_not_opensTag opens
          rw [splitTags_unopened unopened, ih,
            List.countP_cons_of_neg (Bool.not_eq_true _ ▸ opens)]

theorem length_tags (body : List Char) :
    (ofBody body).tags.length = tagLineCount body := by
  rw [tagLineCount, ← length_splitTags]
  exact List.length_map _

/-! ## Reading section by section -/

/-- Before a tag line a block is cut into two, which are read for themselves. -/
theorem ofBody_append_tagged {second : List Char}
    (starts : startsTag second = true) (first : List Char) :
    ofBody (first ++ '\n' :: second) =
      ⟨(ofBody first).description,
        (ofBody first).tags ++ (ofBody second).tags⟩ := by
  obtain ⟨line, rest, lines, opens⟩ := fullLines_of_startsTag starts
  simp only [ofBody_eq_ofLines, fullLines_append_feed, lines, ofLines,
    splitTags_append_tagged opens, List.map_append]

theorem ofSource_around {before body : List Char} (closed : Closed before)
    (unclosed : ¬ ['*', '/'] <:+: body) (after : List Char) :
    ofSource (String.ofList (around before body after)) =
      ofSource (String.ofList before) ++
        ofBody body :: ofSource (String.ofList after) := by
  simp only [ofSource, String.toList_ofList, bodies_around closed unclosed,
    List.map_append, List.map_cons]

theorem unclosed_append_feed {first second : List Char}
    (firstUnclosed : ¬ ['*', '/'] <:+: first)
    (secondUnclosed : ¬ ['*', '/'] <:+: second) :
    ¬ ['*', '/'] <:+: first ++ '\n' :: second := by
  rw [Text.not_pair_infix_iff] at firstUnclosed secondUnclosed ⊢
  exact ClosesNone.across firstUnclosed secondUnclosed (by decide) (by decide)

/-! ## The lines of one tag -/

/-- A block that is cut before a tag line has the description of its first part
and the tags of both parts, each read for itself.  So the lines of one tag
between two parts add the tags of these lines and change nothing else, and a
block has as many tags as tag lines. -/
theorem ofSource_tagSections {before first second : List Char}
    (closed : Closed before) (firstUnclosed : ¬ ['*', '/'] <:+: first)
    (secondUnclosed : ¬ ['*', '/'] <:+: second)
    (starts : startsTag second = true) (after : List Char) :
    let read (body : List Char) :=
      ofSource (String.ofList (around before body after))
    let within (block : CommentBlock) :=
      ofSource (String.ofList before) ++
        block :: ofSource (String.ofList after)
    read first = within (ofBody first) ∧
      read second = within (ofBody second) ∧
      read (first ++ '\n' :: second) =
        within ⟨(ofBody first).description,
          (ofBody first).tags ++ (ofBody second).tags⟩ ∧
      (∀ own, ¬ ['*', '/'] <:+: own → startsTag own = true →
        read (first ++ '\n' :: own ++ '\n' :: second) =
          within ⟨(ofBody first).description,
            (ofBody first).tags ++ (ofBody own).tags ++
              (ofBody second).tags⟩) ∧
      ∀ body, (ofBody body).tags.length = tagLineCount body := by
  intro read within
  have alone {body : List Char} (unclosed : ¬ ['*', '/'] <:+: body) :
      read body = within (ofBody body) :=
    ofSource_around closed unclosed after
  refine ⟨alone firstUnclosed, alone secondUnclosed, ?_, ?_, length_tags⟩
  · rw [alone (unclosed_append_feed firstUnclosed secondUnclosed),
      ofBody_append_tagged starts]
  · intro own ownUnclosed ownStarts
    have opening := unclosed_append_feed firstUnclosed ownUnclosed
    rw [alone (unclosed_append_feed opening secondUnclosed),
      ofBody_append_tagged starts, ofBody_append_tagged ownStarts]

/-- A note whose text begins on its second line, cut behind a blank line. -/
theorem ofSource_tagSections_note :
    let before := "const a = 1;\n".toList
    let first := "\n * Pay.\n * @description\n *\n * Once a day.\n *".toList
    let own := " * @param id Number.\n".toList
    let second := " * @returns ok\n ".toList
    let note : Tag := ⟨.description, "", "Once a day."⟩
    let id : Tag := ⟨.param, "id", "Number."⟩
    let ok : Tag := ⟨.returns, "ok", ""⟩
    let read (body : List Char) :=
      ofSource (String.ofList (around before body []))
    Closed before ∧ startsTag own = true ∧ startsTag second = true ∧
      read (first ++ '\n' :: second) = [⟨"Pay.", [note, ok]⟩] ∧
      read (first ++ '\n' :: own ++ '\n' :: second) =
        [⟨"Pay.", [note, id, ok]⟩] := by
  intro before first own second note id ok read
  have closed : Closed before := .gap (by decide +kernel)
  have firstUnclosed : ¬ ['*', '/'] <:+: first := by decide +kernel
  have ownStarts : startsTag own = true := by decide +kernel
  have starts : startsTag second = true := by decide +kernel
  obtain ⟨_, _, joined, between, _⟩ :=
    ofSource_tagSections closed firstUnclosed (by decide +kernel) starts []
  refine ⟨closed, ownStarts, starts, joined.trans (by decide +kernel), ?_⟩
  exact (between own (by decide +kernel) ownStarts).trans (by decide +kernel)

end TagDoc.CommentBlock
