import TagDoc.DocComment
import TagDoc.Proofs.TagSections

/-!
# Empty comments

The two stars of `/**` open a block even where the second one also begins a
closing.  So behind an empty comment `/**/` a block is open: it begins with the
slash of the empty comment and reaches to the next closing, with all comments on
the way there.
-/

namespace TagDoc

namespace CommentBlock

/-! ## A block with a slash at its beginning -/

theorem unclosed_slash {body : List Char} (unclosed : ¬ ['*', '/'] <:+: body) :
    ¬ ['*', '/'] <:+: '/' :: body := by
  intro inside
  rcases List.infix_cons_iff.mp inside with first | later
  · exact absurd (List.cons_prefix_cons.mp first).1 (by decide)
  · exact unclosed later

theorem contentLine_slash (line : List Char) :
    contentLine ('/' :: line) = '/' :: Text.trimEnd line := by
  have kept : dropGutter ('/' :: line) = '/' :: line := by
    simp [dropGutter, dropOne, Text.isBlank]
  rw [contentLine, kept, Text.trimEnd_cons (by decide)]

theorem description_slash (body : List Char) :
    (ofBody ('/' :: body)).description.toList.head? = some '/' := by
  obtain ⟨line, rest, lines⟩ :=
    List.exists_cons_of_ne_nil (List.splitOn_ne_nil '\n' body)
  have full : fullLines ('/' :: body) =
      ('/' :: Text.trimEnd line) :: rest.map contentLine := by
    have mark : ('/' == '\n') = false := by decide
    rw [fullLines, List.splitOn_cons_eq_if_modifyHead, lines]
    simp [mark, contentLine_slash]
  have unopened : openTag? ('/' :: Text.trimEnd line) = none :=
    openTag?_of_not_opensTag rfl
  let head := (splitTags (rest.map contentLine)).1
  have described : (ofBody ('/' :: body)).description =
      joinLines (('/' :: Text.trimEnd line) :: head) := by
    rw [ofBody_eq_ofLines, full, ofLines, splitTags_unopened unopened]
  have joined : joinLines (('/' :: Text.trimEnd line) :: head) =
      String.ofList ('/' :: Text.trimEnd
        (Text.trimEnd line ++ head.flatMap fun line => '\n' :: line)) := by
    rw [joinLines, Text.intercalate_cons, List.cons_append, Text.trim,
      Text.trimStart, List.dropWhile_cons_of_neg (by decide),
      Text.trimEnd_cons (by decide)]
  rw [described, joined, String.toList_ofList, List.head?_cons]

/-! ## Behind an empty comment -/

section Hidden

variable {before after : String}

theorem bodies_emptyComment (free : OpensNone before) :
    bodies (before ++ "/**/" ++ after).toList =
      bodiesFrom (some []) ('/' :: after.toList) := by
  have spelled : (before ++ "/**/" ++ after).toList =
      before.toList ++ ['/', '*', '*'] ++ '/' :: after.toList := by
    simp
  rw [spelled, bodies, bodiesFrom_opening free]

/-- An empty comment with no closing behind it hides nothing, since there is
nothing to hide. -/
theorem ofSource_emptyComment_unclosed (free : OpensNone before)
    (unclosed : ¬ ['*', '/'] <:+: after.toList) :
    ofSource (before ++ "/**/" ++ after) = [] ∧ ofSource after = [] := by
  rw [ofSource, bodies_emptyComment free,
    bodiesFrom_unclosed (unclosed_slash unclosed), ofSource,
    bodies_unclosed unclosed]
  exact ⟨rfl, rfl⟩

theorem ofSource_emptyComment_closed (free : OpensNone before)
    {body rest : List Char}
    (closed : after.toList = body ++ ['*', '/'] ++ rest)
    (unclosed : ¬ ['*', '/'] <:+: body) :
    ofSource (before ++ "/**/" ++ after) =
      ofBody ('/' :: body) :: ofSource (String.ofList rest) := by
  have block := bodiesFrom_closed_block (unclosed_slash unclosed) rest
  rw [ofSource, bodies_emptyComment free, closed, ← List.cons_append,
    ← List.cons_append, block, List.map_cons, ofSource, String.toList_ofList]

end Hidden

/-- What is read behind an empty comment: nothing, if no comment is closed there,
and otherwise first the block that reaches from the slash of the empty comment to
the first closing.  This block documents the unit, and its description begins
with the slash.  So unless the first block behind the empty comment has such a
description too, an empty comment leaves the blocks behind it exactly if no
comment is closed there. -/
theorem ofSource_emptyComment {before : String} (free : OpensNone before)
    (unit after : String) :
    let source := before ++ "/**/" ++ after
    (¬ ['*', '/'] <:+: after.toList →
      ofSource source = [] ∧ ofSource after = []) ∧
    (∀ body rest, after.toList = body ++ ['*', '/'] ++ rest →
      ¬ ['*', '/'] <:+: body →
      let block := ofBody ('/' :: body)
      ofSource source = block :: ofSource (String.ofList rest) ∧
        DocComment.ofSource? unit source =
          some (DocComment.ofTags unit block.description block.tags) ∧
        block.description.toList.head? = some '/') ∧
    ((∀ block ∈ (ofSource after).head?,
        block.description.toList.head? ≠ some '/') →
      (ofSource source = ofSource after ↔
        ¬ ['*', '/'] <:+: after.toList)) := by
  intro source
  have nothing (unclosed : ¬ ['*', '/'] <:+: after.toList) :
      ofSource source = [] ∧ ofSource after = [] :=
    ofSource_emptyComment_unclosed free unclosed
  have closed {body rest : List Char}
      (spelled : after.toList = body ++ ['*', '/'] ++ rest)
      (unclosed : ¬ ['*', '/'] <:+: body) :
      ofSource source =
        ofBody ('/' :: body) :: ofSource (String.ofList rest) :=
    ofSource_emptyComment_closed free spelled unclosed
  refine ⟨nothing, ?_, ?_⟩
  · intro body rest spelled unclosed block
    have read := closed spelled unclosed
    refine ⟨read, ?_, description_slash body⟩
    rw [DocComment.ofSource?, read, List.head?_cons, Option.map_some]
  · intro unslashed
    constructor
    · intro same
      rcases closing_cases after.toList with
        unclosed | ⟨body, rest, spelled, unclosed⟩
      · exact unclosed
      · have first := same ▸ closed spelled unclosed
        have block : (ofSource after).head? = some (ofBody ('/' :: body)) := by
          rw [first, List.head?_cons]
        exact (unslashed _ block (description_slash body)).elim
    · intro unclosed
      obtain ⟨hidden, plain⟩ := nothing unclosed
      exact hidden.trans plain.symm

/-- The doc block behind an empty comment is read as part of another block. -/
theorem ofSource_emptyComment_pay :
    let before := "const a = 1; "
    let after := " b();\n/** Pay. */\n/** Refund. */"
    OpensNone before ∧
      ofSource (before ++ "/**/" ++ after) =
        [⟨"/ b();\n/** Pay.", []⟩, ⟨"Refund.", []⟩] ∧
      ofSource (before ++ "/**/" ++ after) ≠ ofSource after := by
  intro before after
  have free : OpensNone before := by decide +kernel
  obtain ⟨_, closed, same⟩ := ofSource_emptyComment free "pay" after
  have unslashed : ∀ block ∈ (ofSource after).head?,
      block.description.toList.head? ≠ some '/' := by
    decide +kernel
  have block := (closed " b();\n/** Pay. ".toList "\n/** Refund. */".toList
    (by decide +kernel) (by decide +kernel)).1
  refine ⟨free, block.trans (by decide +kernel), fun kept => ?_⟩
  exact (same unslashed).mp kept (by decide +kernel)

/-- An empty comment may hide the doc block behind it, also where no other
comment is open. -/
theorem not_ofSource_emptyComment :
    ¬ ∀ before after : String, ¬ ['/', '*'] <:+: before.toList →
      before.toList.getLast? ≠ some '/' →
      ofSource (before ++ "/**/" ++ after) = ofSource after := by
  intro kept
  have read := kept "" "\n/** Doc. */" (by decide +kernel) (by decide +kernel)
  exact absurd read (by decide +kernel)

end CommentBlock

end TagDoc
