import TagDoc.Proofs.CommentPrinting

/-!
# Where blocks stand in a source text

A block stands behind a text at whose end no block is open, and reaches to the
first closing behind its opening.  These are exactly the blocks that are read,
and what stands before and after a block is read for itself.
-/

namespace TagDoc.CommentBlock

/-- A source text with a block in it. -/
def around (before body after : List Char) : List Char :=
  before ++ ['/', '*', '*'] ++ body ++ ['*', '/'] ++ after

/-- A text at whose end no block is open: blocks, each between texts that open
none. -/
inductive Closed : List Char → Prop where
  | gap {gap : List Char} : ¬ ['/', '*', '*'] <:+: gap → Closed gap
  | block {before body gap : List Char} :
      Closed before → ¬ ['*', '/'] <:+: body → ¬ ['/', '*', '*'] <:+: gap →
      Closed (around before body gap)

theorem closed_nil : Closed [] :=
  .gap (by simp)

theorem around_around (first body before last after : List Char) :
    around first body (around before last after) =
      around (around first body before) last after := by
  simp only [around, List.append_assoc]

theorem length_lt_around (before body after : List Char) :
    after.length < (around before body after).length := by
  simp only [around, List.length_append, List.length_cons]
  omega

theorem prefix_around {mark before : List Char} (leads : mark <+: before)
    (body after : List Char) : mark <+: around before body after := by
  simp only [around, List.append_assoc]
  exact leads.trans (List.prefix_append before _)

theorem bodiesFrom_closed_block {body : List Char}
    (unclosed : ¬ ['*', '/'] <:+: body) (rest : List Char) :
    bodiesFrom (some []) (body ++ ['*', '/'] ++ rest) =
      body :: bodies rest :=
  bodiesFrom_closing (Text.not_pair_infix_iff.mp unclosed) [] rest

/-- What stands before the opening of a block is read for itself. -/
theorem Closed.bodies_append {before : List Char} (closed : Closed before)
    (rest : List Char) :
    bodies (before ++ ['/', '*', '*'] ++ rest) =
      bodies before ++ bodiesFrom (some []) rest := by
  induction closed generalizing rest with
  | @gap gap free =>
      rw [bodies, bodiesFrom_opening free, bodies, bodiesFrom_free free,
        List.nil_append]
  | @block before body gap _ unclosed free ih =>
      have inner (tail : List Char) : bodies (around before body tail) =
          bodies before ++ body :: bodies tail := by
        rw [← bodiesFrom_closed_block unclosed, ← ih, around]
        simp only [List.append_assoc]
      have longer : around before body gap ++ ['/', '*', '*'] ++ rest =
          around before body (gap ++ ['/', '*', '*'] ++ rest) := by
        simp only [around, List.append_assoc]
      have opened : bodies (gap ++ ['/', '*', '*'] ++ rest) =
          bodiesFrom (some []) rest := bodiesFrom_opening free rest
      have last : bodies gap = [] := bodiesFrom_free free
      rw [longer, inner, inner, opened, last, List.append_assoc]
      rfl

theorem bodies_around {before body : List Char} (closed : Closed before)
    (unclosed : ¬ ['*', '/'] <:+: body) (after : List Char) :
    bodies (around before body after) =
      bodies before ++ body :: bodies after := by
  rw [← bodiesFrom_closed_block unclosed, ← closed.bodies_append, around]
  simp only [List.append_assoc]

/-! ## All blocks have such places -/

theorem Closed.cons {before : List Char} (closed : Closed before)
    {character : Char}
    (unopened : ¬ ['/', '*', '*'] <+: character :: before) :
    Closed (character :: before) := by
  induction closed with
  | gap free =>
      apply Closed.gap
      intro inside
      rcases List.infix_cons_iff.mp inside with first | later
      · exact unopened first
      · exact free later
  | @block before body gap _ unclosed free ih =>
      have shorter : ¬ ['/', '*', '*'] <+: character :: before :=
        fun leads => unopened (prefix_around leads body gap)
      exact .block (ih shorter) unclosed free

theorem closing_cases (text : List Char) :
    ¬ ['*', '/'] <:+: text ∨
      ∃ body after, text = body ++ ['*', '/'] ++ after ∧
        ¬ ['*', '/'] <:+: body := by
  induction text with
  | nil => exact .inl (by simp)
  | cons character rest ih =>
      by_cases closes : ['*', '/'] <+: character :: rest
      · obtain ⟨after, spelled⟩ := closes
        exact .inr ⟨[], after, spelled.symm, by simp⟩
      · rcases ih with free | ⟨body, after, rfl, free⟩
        · refine .inl fun inside => ?_
          exact (List.infix_cons_iff.mp inside).elim closes free
        · refine .inr ⟨character :: body, after, rfl, fun inside => ?_⟩
          rcases List.infix_cons_iff.mp inside with first | later
          · apply closes
            rw [List.append_assoc, ← List.cons_append]
            exact first.trans (List.prefix_append _ _)
          · exact free later

theorem bodiesFrom_unclosed {text : List Char}
    (unclosed : ¬ ['*', '/'] <:+: text) (read : List Char) :
    bodiesFrom (some read) text = [] := by
  induction text generalizing read with
  | nil => rfl
  | cons character rest ih =>
      have later : ¬ ['*', '/'] <:+: rest := fun inside =>
        unclosed (List.infix_cons_iff.mpr (.inr inside))
      rw [bodiesFrom_some_cons fun closes => unclosed closes.isInfix, ih later]

theorem Closed.behind_block {body gap : List Char}
    (unclosed : ¬ ['*', '/'] <:+: body) (closed : Closed gap) :
    Closed (around [] body gap) := by
  induction closed with
  | gap free => exact .block closed_nil unclosed free
  | @block before inner gap _ innerUnclosed free ih =>
      have further := Closed.block ih innerUnclosed free
      exact around_around [] body before inner gap ▸ further

theorem bodies_opening_cases (inner : List Char) :
    bodies (['/', '*', '*'] ++ inner) = [] ∨
      ∃ body after, ['/', '*', '*'] ++ inner = around [] body after ∧
        ¬ ['*', '/'] <:+: body := by
  rcases closing_cases inner with free | ⟨body, after, rfl, unclosed⟩
  · exact .inl (bodiesFrom_unclosed free [])
  · refine .inr ⟨body, after, ?_, unclosed⟩
    simp only [around, List.append_assoc, List.nil_append]

/-- Each block in the order of the blocks has a place of its own. -/
theorem exists_around_of_bodies {source body : List Char}
    {first later : List (List Char)}
    (read : bodies source = first ++ body :: later) :
    ∃ before after, source = around before body after ∧ Closed before ∧
      ¬ ['*', '/'] <:+: body ∧ bodies before = first ∧
        bodies after = later := by
  match source with
  | [] => cases (List.nil_eq_append_iff.mp read).2
  | character :: rest =>
      by_cases opens : ['/', '*', '*'] <+: character :: rest
      · obtain ⟨inner, spelled⟩ := opens
        rcases bodies_opening_cases inner with
          none | ⟨own, after, block, unclosed⟩
        · rw [← spelled, none] at read
          cases (List.nil_eq_append_iff.mp read).2
        · have whole : character :: rest = around [] own after :=
            spelled.symm.trans block
          have within : after.length < (character :: rest).length :=
            whole ▸ length_lt_around [] own after
          rw [whole, bodies_around closed_nil unclosed] at read
          rw [whole]
          rcases List.cons_eq_append_iff.mp read with
            ⟨rfl, same⟩ | ⟨passed, rfl, following⟩
          · obtain ⟨rfl, rfl⟩ := List.cons.inj same
            exact ⟨[], after, rfl, closed_nil, unclosed, rfl, rfl⟩
          · obtain ⟨before, last, rfl, closed, free, rfl, rfl⟩ :=
              exists_around_of_bodies following
            exact ⟨around [] own before, last,
              around_around [] own before body last,
              closed.behind_block unclosed, free,
              bodies_around closed_nil unclosed before, rfl⟩
      · rw [bodies, bodiesFrom_none_cons opens] at read
        obtain ⟨before, after, rfl, closed, free, rfl, rfl⟩ :=
          exists_around_of_bodies read
        have unopened : ¬ ['/', '*', '*'] <+: character :: before :=
          fun leads => opens (prefix_around leads body after)
        exact ⟨character :: before, after, rfl, closed.cons unopened, free,
          bodiesFrom_none_cons unopened, rfl⟩
termination_by source.length
decreasing_by
  · exact within
  · exact Nat.lt_succ_self rest.length

/-- The blocks that are read are those that stand behind a closed text and
reach to the first closing. -/
theorem bodies_eq_append_cons_iff {source body : List Char}
    {first later : List (List Char)} :
    bodies source = first ++ body :: later ↔
      ∃ before after, source = around before body after ∧ Closed before ∧
        ¬ ['*', '/'] <:+: body ∧ bodies before = first ∧
          bodies after = later := by
  constructor
  · exact exists_around_of_bodies
  · rintro ⟨before, after, rfl, closed, unclosed, rfl, rfl⟩
    exact bodies_around closed unclosed after

theorem bodies_unclosed {text : List Char}
    (unclosed : ¬ ['*', '/'] <:+: text) : bodies text = [] := by
  refine List.eq_nil_iff_forall_not_mem.mpr fun body member => ?_
  obtain ⟨first, later, read⟩ := List.append_of_mem member
  obtain ⟨before, after, rfl, _⟩ := bodies_eq_append_cons_iff.mp read
  exact unclosed ⟨before ++ ['/', '*', '*'] ++ body, after, rfl⟩

end TagDoc.CommentBlock
