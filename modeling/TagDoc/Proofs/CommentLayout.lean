import Mathlib.Data.List.Forall2
import TagDoc.Proofs.BlockPlaces

/-!
# The layout of comments

The blocks of a source text do not depend on its layout: neither on the
indentation of the lines inside a block, nor on white space at their ends, nor
on carriage returns before line feeds.  A line of a block is read without its
gutter and without white space at its end, and an empty line after the last one
changes nothing.
-/

namespace TagDoc

namespace CommentBlock

open Text (AllSpace AllBlank)

/-! ## One line -/

/-- A line of a block as it is read. -/
def contentLine (line : List Char) : List Char :=
  Text.trimEnd (dropGutter line)

/-- A function that drops characters at the beginning keeps white space white
space at the end. -/
def KeepsEnd (drop : List Char → List Char) : Prop :=
  ∀ line blank, AllSpace blank →
    ∃ rest, AllSpace rest ∧ drop (line ++ blank) = drop line ++ rest

theorem keepsEnd_dropWhile (strip : Char → Bool) :
    KeepsEnd (List.dropWhile strip) := by
  intro line blank spaces
  rw [List.dropWhile_append]
  split
  · next consumed =>
      refine ⟨blank.dropWhile strip,
        spaces.mono (List.dropWhile_sublist _).subset, ?_⟩
      rw [List.isEmpty_iff.mp consumed, List.nil_append]
  · exact ⟨blank, spaces, rfl⟩

theorem keepsEnd_dropOne (strip : Char → Bool) : KeepsEnd (dropOne strip) := by
  intro line blank spaces
  cases line with
  | nil =>
      refine ⟨dropOne strip blank, spaces.mono ?_, rfl⟩
      cases blank with
      | nil => exact List.Subset.refl _
      | cons character rest =>
          rw [dropOne]
          split
          · exact List.subset_cons_self _ _
          · exact List.Subset.refl _
  | cons character rest =>
      refine ⟨blank, spaces, ?_⟩
      rw [List.cons_append, dropOne, dropOne]
      split
      · rfl
      · rfl

theorem keepsEnd_dropGutter : KeepsEnd dropGutter := by
  intro line blank spaces
  obtain ⟨second, secondSpaces, indented⟩ :=
    keepsEnd_dropWhile Text.isBlank line blank spaces
  obtain ⟨third, thirdSpaces, starred⟩ :=
    keepsEnd_dropOne (· == '*') (line.dropWhile Text.isBlank) second
      secondSpaces
  obtain ⟨rest, restSpaces, dropped⟩ :=
    keepsEnd_dropOne Text.isBlank
      (dropOne (· == '*') (line.dropWhile Text.isBlank)) third thirdSpaces
  refine ⟨rest, restSpaces, ?_⟩
  rw [dropGutter, indented, starred, dropped, dropGutter]

theorem contentLine_append_space {blank : List Char}
    (spaces : AllSpace blank) (line : List Char) :
    contentLine (line ++ blank) = contentLine line := by
  obtain ⟨rest, restSpaces, dropped⟩ := keepsEnd_dropGutter line blank spaces
  rw [contentLine, dropped, Text.trimEnd_append_space restSpaces, contentLine]

theorem contentLine_indented {blank : List Char} (blanks : AllBlank blank)
    (line : List Char) : contentLine (blank ++ line) = contentLine line := by
  rw [contentLine, dropGutter, List.dropWhile_append_of_pos blanks,
    contentLine, dropGutter]

/-! ## All lines -/

/-- The lines of a block between its line feeds, as they are read.  A line feed
at the end of the block is followed by an empty line here. -/
def fullLines (body : List Char) : List (List Char) :=
  (body.splitOn '\n').map contentLine

theorem contentLine_closeLine (read : List Char) :
    contentLine (Text.closeLine read) = contentLine read.reverse := by
  unfold Text.closeLine
  split
  · next line =>
      rw [List.reverse_cons, contentLine_append_space Text.allSpace_return]
  · rfl

theorem fullLines_plain {line : List Char} (plain : '\n' ∉ line) :
    fullLines line = [contentLine line] := by
  rw [fullLines, List.splitOn_eq_singleton plain, List.map_singleton]

theorem fullLines_append_feed (before after : List Char) :
    fullLines (before ++ '\n' :: after) =
      fullLines before ++ fullLines after := by
  rw [fullLines, List.splitOn_append_cons_self, List.map_append]
  rfl

/-- The lines that are read are all lines but an empty one at the end. -/
theorem fullLines_eq (read text : List Char) (plain : '\n' ∉ read) :
    ∃ blank, (blank = [] ∨ blank = [[]]) ∧
      fullLines (read.reverse ++ text) =
        (Text.linesFrom read text).map contentLine ++ blank := by
  induction text generalizing read with
  | nil =>
      have turned : '\n' ∉ read.reverse := fun member =>
        plain (List.mem_reverse.mp member)
      rw [List.append_nil, fullLines_plain turned]
      cases read with
      | nil => exact ⟨[[]], .inr rfl, rfl⟩
      | cons character rest => exact ⟨[], .inl rfl, rfl⟩
  | cons character rest ih =>
      by_cases feed : character = '\n'
      · subst feed
        have turned : '\n' ∉ read.reverse := fun member =>
          plain (List.mem_reverse.mp member)
        obtain ⟨blank, empty, later⟩ := ih [] List.not_mem_nil
        refine ⟨blank, empty, ?_⟩
        rw [List.reverse_nil, List.nil_append] at later
        rw [fullLines_append_feed, fullLines_plain turned, later,
          Text.linesFrom, List.map_cons, contentLine_closeLine]
        rfl
      · have longer : '\n' ∉ character :: read :=
          List.not_mem_cons_of_ne_of_not_mem (Ne.symm feed) plain
        obtain ⟨blank, empty, later⟩ := ih (character :: read) longer
        refine ⟨blank, empty, ?_⟩
        rw [Text.linesFrom_cons feed, ← later, List.reverse_cons,
          List.append_assoc, List.singleton_append]

/-! ## An empty line at the end -/

/-- The block with the given lines. -/
def ofLines (lines : List (List Char)) : CommentBlock :=
  let parts := splitTags lines
  ⟨joinLines parts.1, parts.2.map fun (tag, lines) => closeTag tag lines⟩

theorem closeTag_append_empty (tag : Tag) (lines : List (List Char)) :
    closeTag tag (lines ++ [[]]) = closeTag tag lines := by
  rw [closeTag, List.foldl_append, List.foldl_cons, List.foldl_nil, closeTag]
  generalize lines.foldl continueTag tag = full
  rw [continueTag]
  split
  · next fresh =>
      obtain ⟨_, empty⟩ := fresh
      rw [String.isEmpty_iff.mp empty]
  · have trimmed := Text.trimEnd_append_space Text.allSpace_feed
      full.description.toList
    simp [Text.trimEndString, trimmed]

theorem joinLines_append_empty (lines : List (List Char)) :
    joinLines (lines ++ [[]]) = joinLines lines := by
  cases lines with
  | nil => rfl
  | cons first rest =>
      have joined : ['\n'].intercalate (first :: rest ++ [[]]) =
          ['\n'].intercalate (first :: rest) ++ ['\n'] := by
        rw [List.cons_append, Text.intercalate_cons, Text.intercalate_cons,
          List.flatMap_append, List.append_assoc]
        rfl
      rw [joinLines, joined, Text.trim_append_space Text.allSpace_feed, joinLines]

/-- An empty line after the others goes to the description or to the last
tag, which loses it when it is closed. -/
theorem splitTags_append_empty (lines : List (List Char)) :
    let parts := splitTags lines
    let longer := splitTags (lines ++ [[]])
    (longer.1 = parts.1 ∨ longer.1 = parts.1 ++ [[]]) ∧
      longer.2.map (fun (tag, lines) => closeTag tag lines) =
        parts.2.map fun (tag, lines) => closeTag tag lines := by
  induction lines with
  | nil => exact ⟨.inr rfl, rfl⟩
  | cons line rest ih =>
      obtain ⟨head, tags⟩ := ih
      cases opened : openTag? line with
      | some tag =>
          simp only [List.cons_append, splitTags_opened opened, List.map_cons,
            tags]
          refine ⟨.inl trivial, ?_⟩
          rcases head with same | longer
          · rw [same]
          · rw [longer, closeTag_append_empty]
      | none =>
          simp only [List.cons_append, splitTags, opened]
          refine ⟨?_, tags⟩
          rcases head with same | longer
          · exact .inl (by rw [same])
          · exact .inr (by rw [longer])

theorem ofLines_append_empty (lines : List (List Char)) :
    ofLines (lines ++ [[]]) = ofLines lines := by
  obtain ⟨head, tags⟩ := splitTags_append_empty lines
  have described : joinLines (splitTags (lines ++ [[]])).1 =
      joinLines (splitTags lines).1 := by
    rcases head with same | longer
    · rw [same]
    · rw [longer, joinLines_append_empty]
  rw [ofLines, ofLines, described, tags]

theorem ofBody_eq_ofLines (body : List Char) :
    ofBody body = ofLines (fullLines body) := by
  obtain ⟨blank, empty, lines⟩ := fullLines_eq [] body List.not_mem_nil
  rw [List.reverse_nil, List.nil_append] at lines
  have read : ofBody body =
      ofLines ((Text.linesFrom [] body).map contentLine) := rfl
  rw [lines, read]
  rcases empty with rfl | rfl
  · rw [List.append_nil]
  · rw [ofLines_append_empty]

/-! ## White space at the ends of lines -/

/-- The second text has further white space at the ends of its lines. -/
inductive Trailed : List Char → List Char → Prop where
  | last {blank : List Char} :
      AllSpace blank → '\n' ∉ blank → Trailed [] blank
  | feed {blank rest longer : List Char} :
      AllSpace blank → '\n' ∉ blank → Trailed rest longer →
      Trailed ('\n' :: rest) (blank ++ '\n' :: longer)
  | keep {character : Char} {rest longer : List Char} :
      character ≠ '\n' → Trailed rest longer →
      Trailed (character :: rest) (character :: longer)

theorem Trailed.forall₂ {text longer : List Char}
    (trailed : Trailed text longer) :
    List.Forall₂
      (fun line further => ∃ blank, AllSpace blank ∧ further = line ++ blank)
      (text.splitOn '\n') (longer.splitOn '\n') := by
  induction trailed with
  | @last blank spaces plain =>
      rw [List.splitOn_nil, List.splitOn_eq_singleton plain]
      exact .cons ⟨blank, spaces, rfl⟩ .nil
  | @feed blank rest longer spaces plain _ ih =>
      have first := List.splitOn_append_cons_self (a := '\n') [] rest
      rw [List.nil_append, List.splitOn_nil] at first
      rw [first, List.splitOn_append_cons_self,
        List.splitOn_eq_singleton plain]
      exact .cons ⟨blank, spaces, rfl⟩ ih
  | @keep character rest longer other _ ih =>
      have mark : (character == '\n') = false := beq_false_of_ne other
      simp only [List.splitOn_cons_eq_if_modifyHead, mark, Bool.false_eq_true,
        if_false]
      generalize rest.splitOn '\n' = lines at ih ⊢
      generalize longer.splitOn '\n' = further at ih ⊢
      cases ih with
      | nil => exact .nil
      | cons first later =>
          obtain ⟨blank, spaces, rfl⟩ := first
          exact .cons ⟨blank, spaces, rfl⟩ later

theorem Trailed.fullLines_eq {text longer : List Char}
    (trailed : Trailed text longer) : fullLines longer = fullLines text := by
  have pieces := trailed.forall₂
  rw [fullLines, fullLines]
  generalize text.splitOn '\n' = lines at pieces ⊢
  generalize longer.splitOn '\n' = further at pieces ⊢
  induction pieces with
  | nil => rfl
  | cons first _ ih =>
      obtain ⟨blank, spaces, rfl⟩ := first
      rw [List.map_cons, ih, contentLine_append_space spaces, List.map_cons]

theorem Trailed.append {rest longer : List Char}
    (trailed : Trailed rest longer) (before : List Char) :
    Trailed (before ++ rest) (before ++ longer) := by
  induction before with
  | nil => exact trailed
  | cons character before ih =>
      by_cases feed : character = '\n'
      · subst feed
        exact .feed (List.forall_mem_nil _) List.not_mem_nil ih
      · exact .keep feed ih

theorem Trailed.refl (text : List Char) : Trailed text text := by
  have nothing : Trailed [] [] :=
    .last (List.forall_mem_nil _) List.not_mem_nil
  simpa using nothing.append text

/-! ## Edits of a block -/

/-- A text at whose end a line begins. -/
def BeginsLine (before : List Char) : Prop :=
  ∀ character ∈ before.getLast?, character = '\n'

/-- A text at whose beginning a line ends. -/
def EndsLine (after : List Char) : Prop :=
  after = [] ∨ ['\n'] <+: after ∨ ['\r', '\n'] <+: after

/-- The inner text of a block with another indentation of one line, or with
further white space at the end of one line. -/
inductive Respaced : List Char → List Char → Prop where
  | indent {before old new after : List Char} :
      BeginsLine before →
      AllBlank old → AllBlank new →
      Respaced (before ++ old ++ after) (before ++ new ++ after)
  | trail {before blank after : List Char} :
      EndsLine after → AllSpace blank → '\n' ∉ blank →
      Respaced (before ++ after) (before ++ blank ++ after)

theorem fullLines_indented {blank : List Char} (blanks : AllBlank blank)
    (text : List Char) : fullLines (blank ++ text) = fullLines text := by
  have plain := blanks.newline_not_mem
  by_cases feed : '\n' ∈ text
  · obtain ⟨line, rest, rfl, free⟩ := List.eq_append_cons_of_mem feed
    have indented : '\n' ∉ blank ++ line := by
      simpa using ⟨plain, free⟩
    rw [← List.append_assoc, fullLines_append_feed, fullLines_append_feed,
      fullLines_plain indented, fullLines_plain free,
      contentLine_indented blanks]
  · have indented : '\n' ∉ blank ++ text := by
      simpa using ⟨plain, feed⟩
    rw [fullLines_plain indented, fullLines_plain feed,
      contentLine_indented blanks]

theorem fullLines_append_of_beginsLine {before : List Char}
    (begins : BeginsLine before) :
    ∃ lines, ∀ text, fullLines (before ++ text) = lines ++ fullLines text := by
  cases last : before.getLast? with
  | none =>
      rw [List.getLast?_eq_none_iff.mp last]
      exact ⟨[], fun _ => rfl⟩
  | some character =>
      obtain rfl := begins character last
      obtain ⟨inner, rfl⟩ := List.getLast?_eq_some_iff.mp last
      refine ⟨fullLines inner, fun text => ?_⟩
      rw [List.append_assoc, List.singleton_append, fullLines_append_feed]

theorem Respaced.fullLines_eq {body edited : List Char}
    (respaced : Respaced body edited) :
    fullLines edited = fullLines body := by
  cases respaced with
  | @indent before old new after begins oldBlank newBlank =>
      obtain ⟨lines, complete⟩ := fullLines_append_of_beginsLine begins
      rw [List.append_assoc, List.append_assoc, complete, complete,
        fullLines_indented newBlank, fullLines_indented oldBlank]
  | @trail before blank after ends spaces plain =>
      rw [List.append_assoc]
      rcases ends with rfl | ⟨rest, rfl⟩ | ⟨rest, rfl⟩
      · have trailed := (Trailed.last spaces plain).append before
        rw [List.append_nil blank]
        exact trailed.fullLines_eq
      · have trailed := Trailed.feed spaces plain (.refl rest)
        exact (trailed.append before).fullLines_eq
      · -- Both texts have further white space in front of the same line feed.
        have together : AllSpace (blank ++ ['\r']) :=
          List.forall_mem_append.mpr ⟨spaces, Text.allSpace_return⟩
        have short := Trailed.feed Text.allSpace_return (by decide) (.refl rest)
        have long := Trailed.feed together (by simpa using plain) (.refl rest)
        have first := (short.append before).fullLines_eq
        have second := (long.append before).fullLines_eq
        rw [List.append_assoc] at second
        exact second.trans first.symm

theorem Respaced.ofBody_eq {body edited : List Char}
    (respaced : Respaced body edited) : ofBody edited = ofBody body := by
  rw [ofBody_eq_ofLines, respaced.fullLines_eq, ofBody_eq_ofLines]

theorem closesNone_of_allSpace {blank : List Char} (spaces : AllSpace blank) :
    ClosesNone blank := by
  apply Text.not_pair_infix_iff.mp
  intro inside
  have star : '*' ∈ blank := inside.subset List.mem_cons_self
  exact absurd (spaces '*' star) (by decide)

/-- White space within a text that closes no block closes none either. -/
theorem ClosesNone.insert {before after : List Char}
    (unclosed : ClosesNone (before ++ after)) {blank : List Char}
    (spaces : AllSpace blank) : ClosesNone (before ++ blank ++ after) := by
  obtain ⟨first, second, _⟩ := List.isChain_append.mp unclosed
  cases blank with
  | nil => simpa using unclosed
  | cons character rest =>
      have inner := closesNone_of_allSpace spaces
      have opened : ClosesNone (before ++ character :: rest) := by
        refine first.append inner ?_
        intro left _ right next _ slash
        obtain rfl : character = right := by simpa using next
        subst slash
        exact absurd (spaces '/' List.mem_cons_self) (by decide)
      refine opened.append second ?_
      intro left last right _ star
      subst star
      have member : '*' ∈ character :: rest := by
        rw [List.getLast?_append_of_ne_nil _ (List.cons_ne_nil _ _)] at last
        exact List.mem_of_mem_getLast? last
      exact absurd (spaces '*' member) (by decide)

theorem Respaced.closesNone {body edited : List Char}
    (respaced : Respaced body edited) (unclosed : ClosesNone body) :
    ClosesNone edited := by
  cases respaced with
  | @indent before old new after begins oldBlank newBlank =>
      obtain ⟨opened, second, _⟩ := List.isChain_append.mp unclosed
      obtain ⟨first, _, _⟩ := List.isChain_append.mp opened
      have joined : ClosesNone (before ++ after) := by
        refine first.append second ?_
        intro left last right _ star
        subst star
        exact absurd (begins '*' last) (by decide)
      exact joined.insert newBlank.allSpace
  | trail _ spaces _ => exact unclosed.insert spaces

/-! ## Carriage returns -/

/-- The text with a carriage return before each line feed. -/
def withReturns (text : List Char) : List Char :=
  text.flatMap fun character =>
    if character = '\n' then ['\r', '\n'] else [character]

theorem withReturns_feed (rest : List Char) :
    withReturns ('\n' :: rest) = '\r' :: '\n' :: withReturns rest :=
  rfl

theorem withReturns_keep {character : Char} (other : character ≠ '\n')
    (rest : List Char) :
    withReturns (character :: rest) = character :: withReturns rest := by
  rw [withReturns, List.flatMap_cons, if_neg other]
  rfl

theorem trailed_withReturns (text : List Char) :
    Trailed text (withReturns text) := by
  induction text with
  | nil => exact .refl []
  | cons character rest ih =>
      by_cases feed : character = '\n'
      · subst feed
        exact .feed Text.allSpace_return (by decide) ih
      · rw [withReturns_keep feed]
        exact .keep feed ih

theorem ofBody_withReturns (body : List Char) :
    ofBody (withReturns body) = ofBody body := by
  rw [ofBody_eq_ofLines, (trailed_withReturns body).fullLines_eq,
    ofBody_eq_ofLines]

theorem prefix_of_withReturns {mark text : List Char} (plain : '\r' ∉ mark)
    (leads : mark <+: withReturns text) : mark <+: text := by
  induction mark generalizing text with
  | nil => exact List.nil_prefix
  | cons first mark ih =>
      obtain ⟨other, later⟩ := List.ne_and_not_mem_of_not_mem_cons plain
      cases text with
      | nil => cases List.prefix_nil.mp leads
      | cons character rest =>
          by_cases feed : character = '\n'
          · subst feed
            rw [withReturns_feed] at leads
            exact (other (List.cons_prefix_cons.mp leads).1.symm).elim
          · rw [withReturns_keep feed] at leads
            obtain ⟨rfl, inside⟩ := List.cons_prefix_cons.mp leads
            exact List.cons_prefix_cons.mpr ⟨rfl, ih later inside⟩

theorem bodiesFrom_none_withReturns {character : Char} {rest : List Char}
    (unopened : ¬ ['/', '*', '*'] <+: character :: rest) :
    bodiesFrom none (withReturns (character :: rest)) =
      bodiesFrom none (withReturns rest) := by
  by_cases feed : character = '\n'
  · subst feed
    rw [withReturns_feed, bodiesFrom_none_cons (by simp),
      bodiesFrom_none_cons (by simp)]
  · have still : ¬ ['/', '*', '*'] <+: withReturns (character :: rest) :=
      fun opens => unopened (prefix_of_withReturns (by decide) opens)
    rw [withReturns_keep feed] at still ⊢
    exact bodiesFrom_none_cons still

theorem bodiesFrom_some_withReturns {character : Char} {rest : List Char}
    (unclosed : ¬ ['*', '/'] <+: character :: rest) (read : List Char) :
    bodiesFrom (some read) (withReturns (character :: rest)) =
      bodiesFrom (some ((withReturns [character]).reverse ++ read))
        (withReturns rest) := by
  by_cases feed : character = '\n'
  · subst feed
    rw [withReturns_feed, bodiesFrom_some_cons (by simp),
      bodiesFrom_some_cons (by simp)]
    rfl
  · have still : ¬ ['*', '/'] <+: withReturns (character :: rest) :=
      fun closes => unclosed (prefix_of_withReturns (by decide) closes)
    rw [withReturns_keep feed] at still ⊢
    rw [bodiesFrom_some_cons still, withReturns_keep feed]
    rfl

theorem bodiesFrom_withReturns (state : Option (List Char))
    (text : List Char) :
    bodiesFrom (state.map fun read => (withReturns read.reverse).reverse)
        (withReturns text) =
      (bodiesFrom state text).map withReturns := by
  fun_induction bodiesFrom state text with
  | case1 state => rfl
  | case2 rest ih => exact ih
  | case3 character rest unopened ih =>
      have still : ¬ ['/', '*', '*'] <+: character :: rest := by
        rintro ⟨after, spelled⟩
        cases spelled
        exact unopened after rfl rfl
      exact (bodiesFrom_none_withReturns still).trans ih
  | case4 read rest ih =>
      have closed : withReturns ('*' :: '/' :: rest) =
          '*' :: '/' :: withReturns rest := rfl
      rw [closed, Option.map_some, bodiesFrom, List.reverse_reverse,
        List.map_cons]
      exact congrArg _ ih
  | case5 read character rest unclosed ih =>
      have still : ¬ ['*', '/'] <+: character :: rest := by
        rintro ⟨after, spelled⟩
        cases spelled
        exact unclosed after rfl rfl
      have longer : (withReturns (character :: read).reverse).reverse =
          (withReturns [character]).reverse ++
            (withReturns read.reverse).reverse := by
        simp [withReturns]
      rw [Option.map_some, bodiesFrom_some_withReturns still, ← longer]
      exact ih

theorem bodies_withReturns (text : List Char) :
    bodies (withReturns text) = (bodies text).map withReturns :=
  bodiesFrom_withReturns none text

/-! ## Edits of a source text -/

/-- The source text after any number of edits of its layout: of the indentation
of a line inside a block, of the white space at the end of one, and of all line
ends. -/
inductive Relaid (source : List Char) : List Char → Prop where
  | refl : Relaid source source
  | inside {before body edited after : List Char} :
      Relaid source (around before body after) → Closed before →
      ¬ ['*', '/'] <:+: body → Respaced body edited →
      Relaid source (around before edited after)
  | returns {text : List Char} :
      Relaid source text → Relaid source (withReturns text)

theorem Relaid.map_bodies {source edited : List Char}
    (relaid : Relaid source edited) :
    (bodies edited).map ofBody = (bodies source).map ofBody := by
  induction relaid with
  | refl => rfl
  | @inside before body edited after _ closed unclosed respaced ih =>
      have still : ¬ ['*', '/'] <:+: edited :=
        Text.not_pair_infix_iff.mpr
          (respaced.closesNone (Text.not_pair_infix_iff.mp unclosed))
      rw [← ih, bodies_around closed still, bodies_around closed unclosed]
      simp only [List.map_append, List.map_cons, respaced.ofBody_eq]
  | @returns text _ ih =>
      rw [← ih, bodies_withReturns, List.map_map]
      exact List.map_congr_left fun body _ => ofBody_withReturns body

/-- The layout of its comments does not matter to the blocks of a source text. -/
theorem ofSource_relaid {source edited : String}
    (relaid : Relaid source.toList edited.toList) :
    ofSource edited = ofSource source :=
  relaid.map_bodies

/-- A line with another indentation, one with a blank at its end and carriage
returns leave a block as it is. -/
theorem ofSource_relaid_returns :
    let source := "/**\n * Pay.\n * @returns ok\n */"
    let edited := "/**\r\n\t* Pay.\r\n * @returns ok \r\n */"
    Relaid source.toList edited.toList ∧
      ofSource edited = ofSource source ∧
      ofSource source = [⟨"Pay.", [⟨.returns, "ok", ""⟩]⟩] := by
  intro source edited
  let lines := "* Pay.\n * @returns ok".toList
  let last := ['\n', ' ']
  have indent : Respaced (['\n'] ++ [' '] ++ (lines ++ last))
      (['\n'] ++ ['\t'] ++ (lines ++ last)) := by
    apply Respaced.indent
    · exact fun character ends => (Option.some.inj ends).symm
    · exact List.forall_mem_singleton.mpr rfl
    · exact List.forall_mem_singleton.mpr rfl
  have trail : Respaced ((['\n', '\t'] ++ lines) ++ last)
      ((['\n', '\t'] ++ lines) ++ [' '] ++ last) := by
    apply Respaced.trail
    · exact .inr (.inl (List.prefix_append ['\n'] [' ']))
    · exact List.forall_mem_singleton.mpr rfl
    · decide
  have spelled : source.toList =
      around [] (['\n'] ++ [' '] ++ (lines ++ last)) [] := by decide +kernel
  have returned : edited.toList = withReturns
      (around [] ((['\n', '\t'] ++ lines) ++ [' '] ++ last) []) := by
    decide +kernel
  have relaid : Relaid source.toList edited.toList := by
    rw [spelled, returned]
    apply Relaid.returns
    refine Relaid.inside ?_ closed_nil (by decide +kernel) trail
    exact .inside .refl closed_nil (by decide +kernel) indent
  exact ⟨relaid, ofSource_relaid relaid, by decide +kernel⟩

end CommentBlock

end TagDoc
