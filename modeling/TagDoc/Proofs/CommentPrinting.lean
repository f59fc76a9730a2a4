import TagDoc.Proofs.FilePath
import TagDoc.Proofs.TagLines

/-!
# Printing comment blocks

A printed comment opens with `/**`, has each of its lines behind ` * ` and
closes with ` */`.  From a source text with any number of printed comments,
whatever else stands between them, exactly these comments are read.
-/

namespace TagDoc.CommentBlock

/-- The lines of the description, then those of the tags. -/
def printedLines (comment : CommentBlock) : List (List Char) :=
  textLines comment.description ++ comment.tags.flatMap Tag.printedLines

def print (comment : CommentBlock) : String :=
  "/**\n" ++
    String.join (comment.printedLines.map fun line =>
      " * " ++ String.ofList line ++ "\n") ++
    " */"

/-- A comment whose lines neither close it nor end in white space, where no line
but the first ones of the tags looks like a tag line, with a trimmed description
and printable tags. -/
structure Printable (comment : CommentBlock) : Prop where
  unclosed : ∀ line ∈ comment.printedLines, ¬ ['*', '/'] <:+: line
  solid : ∀ line ∈ comment.printedLines, Text.EndsSolid line
  description : ∀ line ∈ textLines comment.description, opensTag line = false
  continued : ∀ tag ∈ comment.tags, ∀ line ∈ tag.printedLines.tail,
    opensTag line = false
  starts : Text.StartsSolid comment.description.toList
  ends : Text.EndsSolid comment.description.toList
  tags : ∀ tag ∈ comment.tags, tag.Printable

/-! ## Lines of a printed block -/

/-- What stands between the opening and the closing of a block with lines. -/
def printedBody (lines : List (List Char)) : List Char :=
  ([] :: lines.map fun line => [' ', '*', ' '] ++ line).flatMap
    (fun line => line ++ ['\n']) ++ [' ']

theorem toList_print (comment : CommentBlock) :
    comment.print.toList =
      ['/', '*', '*'] ++ printedBody comment.printedLines ++ ['*', '/'] := by
  simp [print, printedBody, String.toList_join, List.flatMap_map]

theorem dropGutter_print (line : List Char) :
    dropGutter ([' ', '*', ' '] ++ line) = line := by
  simp [dropGutter, dropOne, Text.isBlank]

theorem contentLines_printedBody {lines : List (List Char)}
    (plain : ∀ line ∈ lines, '\n' ∉ line)
    (solid : ∀ line ∈ lines, Text.EndsSolid line) :
    contentLines (printedBody lines) = [] :: lines ++ [[]] := by
  have unfed : ∀ line ∈ [] :: lines.map fun line => [' ', '*', ' '] ++ line,
      '\n' ∉ line := by
    simpa using plain
  have unreturned :
      ∀ line ∈ [] :: lines.map fun line => [' ', '*', ' '] ++ line,
        line.getLast? ≠ some '\r' := by
    refine List.forall_mem_cons.mpr ⟨by simp, List.forall_mem_map.mpr ?_⟩
    intro line member last
    cases line with
    | nil => simp at last
    | cons character rest =>
        rw [List.getLast?_append_of_ne_nil _ (List.cons_ne_nil _ _)] at last
        exact absurd (solid _ member '\r' last) (by decide)
  have kept : lines.map (fun line =>
      Text.trimEnd (dropGutter ([' ', '*', ' '] ++ line))) = lines := by
    refine (List.map_congr_left fun line member => ?_).trans lines.map_id
    rw [dropGutter_print, Text.trimEnd_of_endsSolid (solid line member), id]
  rw [contentLines, printedBody, Text.lines_flatMap_append unfed unreturned,
    List.map_append, List.map_cons, List.map_map]
  exact congrArg (fun middle => [] :: middle ++ [[]]) kept

theorem newline_not_mem_textLines {text : String} {line : List Char}
    (member : line ∈ textLines text) : '\n' ∉ line := by
  unfold textLines at member
  split at member
  · cases member
  · exact FilePath.not_mem_of_mem_splitOn member

theorem newline_not_mem_first (text : String) :
    '\n' ∉ (textLines text).headD [] := by
  cases lines : textLines text with
  | nil => exact List.not_mem_nil
  | cons first rest =>
      exact newline_not_mem_textLines (lines ▸ List.mem_cons_self)

theorem newline_not_mem_spaced {line : List Char} (plain : '\n' ∉ line) :
    '\n' ∉ spaced line := by
  unfold spaced
  split
  · exact List.not_mem_nil
  · simpa using plain

theorem newline_not_mem_lineRest {tag : Tag} (fits : tag.FitsLayout) :
    '\n' ∉ tag.lineRest ((textLines tag.description).headD []) := by
  have first := newline_not_mem_first tag.description
  unfold Tag.FitsLayout at fits
  unfold Tag.lineRest
  cases layout : tag.kind.layout with
  | named =>
      simp only [layout] at fits
      have name : '\n' ∉ tag.name.toList := fun member =>
        absurd (fits.1.solid '\n' member) (by decide)
      exact fun member => (List.mem_append.mp member).elim name
        (newline_not_mem_spaced first)
  | note => exact first
  | bare =>
      simp only [layout] at fits
      exact fits.1.1

theorem newline_not_mem_kind {kind : TagKind} (spelled : Tag.SpelledKind kind) :
    '\n' ∉ kind.name.toList := by
  obtain ⟨first, rest, name, letter, inside⟩ := spelled.letter
  rw [name]
  refine List.not_mem_cons_of_ne_of_not_mem ?_ fun member => ?_
  · rintro rfl
    exact absurd letter (by decide)
  · exact absurd (inside '\n' member) (by decide)

theorem newline_not_mem_printedLines {tag : Tag} (printable : tag.Printable) :
    ∀ line ∈ tag.printedLines, '\n' ∉ line := by
  refine List.forall_mem_cons.mpr ⟨?_, fun line member => ?_⟩
  · refine fun member => (List.mem_append.mp member).elim (fun opening => ?_)
      (newline_not_mem_spaced (newline_not_mem_lineRest printable.fits))
    rcases List.mem_cons.mp opening with mark | name
    · exact absurd mark (by decide)
    · exact newline_not_mem_kind printable.kind name
  · exact newline_not_mem_textLines (List.mem_of_mem_tail member)

/-! ## Dividing lines among tags -/

theorem splitTags_plain {lines : List (List Char)}
    (plain : ∀ line ∈ lines, opensTag line = false) (rest : List (List Char)) :
    splitTags (lines ++ rest) =
      (lines ++ (splitTags rest).1, (splitTags rest).2) := by
  induction lines with
  | nil => rfl
  | cons line later ih =>
      obtain ⟨first, others⟩ := List.forall_mem_cons.mp plain
      rw [List.cons_append, splitTags, ih others]
      simp only [openTag?_of_not_opensTag first]
      rfl

theorem splitTags_opened {line : List Char} {tag : Tag}
    (opened : openTag? line = some tag) (rest : List (List Char)) :
    splitTags (line :: rest) =
      ([], (tag, (splitTags rest).1) :: (splitTags rest).2) := by
  rw [splitTags]
  simp only [opened]

/-- The lines of printable tags and an empty line are divided into pieces that
close to the tags; without tags the empty line is left. -/
theorem splitTags_tags {tags : List Tag}
    (printable : ∀ tag ∈ tags, tag.Printable)
    (continued : ∀ tag ∈ tags, ∀ line ∈ tag.printedLines.tail,
      opensTag line = false) :
    let parts := splitTags (tags.flatMap Tag.printedLines ++ [[]])
    (parts.1 = [] ∨ parts.1 = [[]]) ∧
      parts.2.map (fun (tag, lines) => closeTag tag lines) = tags := by
  induction tags with
  | nil => exact ⟨.inr rfl, rfl⟩
  | cons tag rest ih =>
      obtain ⟨first, others⟩ := List.forall_mem_cons.mp printable
      obtain ⟨firstLines, otherLines⟩ := List.forall_mem_cons.mp continued
      obtain ⟨blank, later⟩ := ih others otherLines
      let below := rest.flatMap Tag.printedLines ++ [[]]
      let text := textLines tag.description
      have lines : (tag :: rest).flatMap Tag.printedLines ++ [[]] =
          tag.printedLines ++ below := by
        simp [below]
      have divided : splitTags (tag.printedLines ++ below) =
          ([], ({ tag with description := String.ofList (text.headD []) },
            text.tail ++ (splitTags below).1) :: (splitTags below).2) := by
        have followed := splitTags_plain firstLines below
        rw [Tag.printedLines, List.tail_cons] at followed
        rw [Tag.printedLines, List.cons_append,
          splitTags_opened (openTag?_print first), followed]
      intro parts
      rw [show parts = _ from (congrArg splitTags lines).trans divided]
      refine ⟨.inl rfl, ?_⟩
      rw [List.map_cons, later]
      exact congrArg (· :: rest) (closeTag_print first blank)

/-! ## The description -/

theorem joinLines_description {description : String}
    (starts : Text.StartsSolid description.toList)
    (ends : Text.EndsSolid description.toList) {blank : List (List Char)}
    (empty : blank = [] ∨ blank = [[]]) :
    joinLines ([] :: textLines description ++ blank) = description := by
  let feeds (lines : List (List Char)) : List Char :=
    lines.flatMap fun line => '\n' :: line
  have after : ∀ character ∈ feeds blank, Text.isSpace character = true :=
    isSpace_emptyLine empty
  obtain ⟨before, spaces, spelled⟩ : ∃ before,
      (∀ character ∈ before, Text.isSpace character = true) ∧
        feeds (textLines description) = before ++ description.toList := by
    have joined := textLines_join description
    cases lines : textLines description with
    | nil =>
        rw [lines] at joined
        exact ⟨[], List.forall_mem_nil _, joined⟩
    | cons first rest =>
        rw [lines] at joined
        refine ⟨['\n'], List.forall_mem_singleton.mpr rfl, ?_⟩
        rw [← joined]
        rfl
  have together : ['\n'].intercalate ([] :: textLines description ++ blank) =
      before ++ description.toList ++ feeds blank := by
    rw [List.cons_append, Text.intercalate_cons, List.nil_append,
      List.flatMap_append, ← spelled]
  rw [joinLines, together, Text.trim_append spaces starts ends after,
    String.ofList_toList]

theorem ofBody_printedBody {comment : CommentBlock}
    (printable : comment.Printable) :
    ofBody (printedBody comment.printedLines) = comment := by
  have plain : ∀ line ∈ comment.printedLines, '\n' ∉ line := by
    intro line member
    rcases List.mem_append.mp member with described | tagged
    · exact newline_not_mem_textLines described
    · obtain ⟨tag, listed, inside⟩ := List.mem_flatMap.mp tagged
      exact newline_not_mem_printedLines (printable.tags tag listed) line inside
  have unopened : ∀ line ∈ [] :: textLines comment.description,
      opensTag line = false :=
    List.forall_mem_cons.mpr ⟨rfl, printable.description⟩
  obtain ⟨blank, closed⟩ :=
    splitTags_tags printable.tags printable.continued
  have lines : contentLines (printedBody comment.printedLines) =
      ([] :: textLines comment.description) ++
        (comment.tags.flatMap Tag.printedLines ++ [[]]) := by
    rw [contentLines_printedBody plain printable.solid, printedLines]
    simp
  rw [ofBody, lines, splitTags_plain unopened]
  simp only [closed]
  rw [joinLines_description printable.starts printable.ends blank]

/-! ## Blocks in a source text -/

/-- A text that opens no block. -/
def OpensNone (text : String) : Prop :=
  ¬ ['/', '*', '*'] <:+: text.toList

instance (text : String) : Decidable (OpensNone text) :=
  inferInstanceAs (Decidable (¬ _))

theorem bodiesFrom_none_cons {character : Char} {rest : List Char}
    (unopened : ¬ ['/', '*', '*'] <+: character :: rest) :
    bodiesFrom none (character :: rest) = bodiesFrom none rest := by
  rw [bodiesFrom]
  rintro after rfl rfl
  exact unopened (List.prefix_append ['/', '*', '*'] after)

theorem bodiesFrom_some_cons {character : Char} {rest : List Char}
    (unclosed : ¬ ['*', '/'] <+: character :: rest) (read : List Char) :
    bodiesFrom (some read) (character :: rest) =
      bodiesFrom (some (character :: read)) rest := by
  rw [bodiesFrom]
  rintro after rfl rfl
  exact unclosed (List.prefix_append ['*', '/'] after)

theorem bodiesFrom_opening {gap : List Char}
    (free : ¬ ['/', '*', '*'] <:+: gap) (rest : List Char) :
    bodiesFrom none (gap ++ ['/', '*', '*'] ++ rest) =
      bodiesFrom (some []) rest := by
  induction gap with
  | nil => rfl
  | cons character gap ih =>
      have later : ¬ ['/', '*', '*'] <:+: gap := fun inside =>
        free (inside.trans (List.suffix_cons character gap).isInfix)
      rw [List.cons_append, List.cons_append, bodiesFrom, ih later]
      -- A gap and the opening together do not open a block earlier.
      rintro after rfl opens
      rcases gap with _ | ⟨second, _ | ⟨third, gap⟩⟩
      · simp at opens
      · simp at opens
      · obtain ⟨rfl, rfl, _⟩ : second = '*' ∧ third = '*' ∧ _ := by
          simpa using opens
        exact free (List.prefix_append ['/', '*', '*'] gap).isInfix

theorem bodiesFrom_free {gap : List Char}
    (free : ¬ ['/', '*', '*'] <:+: gap) : bodiesFrom none gap = [] := by
  induction gap with
  | nil => rfl
  | cons character gap ih =>
      have later : ¬ ['/', '*', '*'] <:+: gap := fun inside =>
        free (inside.trans (List.suffix_cons character gap).isInfix)
      rw [bodiesFrom_none_cons fun opens => free opens.isInfix, ih later]

theorem bodiesFrom_closing {body : List Char}
    (unclosed : body.IsChain (Text.Apart '*' '/')) (read rest : List Char) :
    bodiesFrom (some read) (body ++ ['*', '/'] ++ rest) =
      (read.reverse ++ body) :: bodiesFrom none rest := by
  induction body generalizing read with
  | nil => simp [bodiesFrom]
  | cons character body ih =>
      obtain ⟨apart, later⟩ := List.isChain_cons.mp unclosed
      rw [List.cons_append, List.cons_append, bodiesFrom, ih later]
      · simp
      · rintro after rfl opens
        cases body with
        | nil => simp at opens
        | cons second body =>
            obtain ⟨rfl, _⟩ : second = '/' ∧ _ := by simpa using opens
            exact apart '/' rfl rfl rfl

/-- A text that closes no block. -/
def ClosesNone (text : List Char) : Prop :=
  text.IsChain (Text.Apart '*' '/')

/-- Two texts that close no block close none around any other character. -/
theorem ClosesNone.across {first second : List Char} {mark : Char}
    (firstUnclosed : ClosesNone first) (secondUnclosed : ClosesNone second)
    (star : mark ≠ '*') (slash : mark ≠ '/') :
    ClosesNone (first ++ mark :: second) := by
  have below : ClosesNone (mark :: second) :=
    secondUnclosed.cons fun _ _ same => absurd same star
  refine firstUnclosed.append below ?_
  intro left _ right next _
  obtain rfl : mark = right := by simpa using next
  exact slash

theorem ClosesNone.feed {line rest : List Char} (first : ClosesNone line)
    (later : ClosesNone rest) : ClosesNone (line ++ ['\n'] ++ rest) := by
  rw [List.append_assoc, List.singleton_append]
  exact first.across later (by decide) (by decide)

theorem ClosesNone.gutter {line : List Char} (unclosed : ClosesNone line) :
    ClosesNone ([' ', '*', ' '] ++ line) := by
  have mark : ClosesNone [' ', '*', ' '] :=
    Text.not_pair_infix_iff.mp (by decide)
  refine mark.append unclosed ?_
  intro left last right _ star
  obtain rfl : ' ' = left := by simpa using last
  exact absurd star (by decide)

theorem closesNone_printedBody {lines : List (List Char)}
    (unclosed : ∀ line ∈ lines, ¬ ['*', '/'] <:+: line) :
    ClosesNone (printedBody lines) := by
  have written : ClosesNone
      ((lines.map fun line => [' ', '*', ' '] ++ line).flatMap
        (fun line => line ++ ['\n']) ++ [' ']) := by
    induction lines with
    | nil => exact .singleton ' '
    | cons line rest ih =>
        obtain ⟨first, others⟩ := List.forall_mem_cons.mp unclosed
        have opened : ClosesNone line := Text.not_pair_infix_iff.mp first
        rw [List.map_cons, List.flatMap_cons, List.append_assoc]
        exact opened.gutter.feed (ih others)
  have empty : ClosesNone [] := .nil
  rw [printedBody, List.flatMap_cons, List.append_assoc]
  exact empty.feed written

/-- A printed comment is the first block of a source text when what stands
before it opens none. -/
theorem bodies_print {gap : String} (free : OpensNone gap)
    {comment : CommentBlock} (printable : comment.Printable)
    (rest : List Char) :
    bodies ((gap ++ comment.print).toList ++ rest) =
      printedBody comment.printedLines :: bodies rest := by
  have closing := bodiesFrom_closing
    (closesNone_printedBody printable.unclosed) [] rest
  rw [List.append_assoc] at closing
  rw [String.toList_append, toList_print, bodies, List.append_assoc,
    List.append_assoc, List.append_assoc, ← List.append_assoc gap.toList,
    bodiesFrom_opening free, closing]
  rfl

/-! ## Source texts -/

/-- Printed comments, each behind another text, and a text after the last. -/
def printAll (blocks : List (String × CommentBlock)) (ending : String) :
    String :=
  String.join (blocks.map fun block => block.1 ++ block.2.print) ++ ending

/-- From a source text with printed comments exactly these comments are read,
provided that they are printable and that no other text opens a block. -/
theorem ofSource_printAll (blocks : List (String × CommentBlock))
    (ending : String)
    (printable : ∀ block ∈ blocks, OpensNone block.1 ∧ block.2.Printable)
    (free : OpensNone ending) :
    ofSource (printAll blocks ending) = blocks.map Prod.snd := by
  induction blocks with
  | nil =>
      rw [ofSource, printAll, List.map_nil, String.join_nil,
        String.empty_append, bodies, bodiesFrom_free free]
      rfl
  | cons block rest ih =>
      obtain ⟨⟨gap, comment⟩, others⟩ := List.forall_mem_cons.mp printable
      have first : printAll (block :: rest) ending =
          block.1 ++ block.2.print ++ printAll rest ending := by
        simp [printAll, String.append_assoc]
      rw [ofSource, first, String.toList_append, bodies_print gap comment,
        List.map_cons, ofBody_printedBody comment, ← ofSource, ih others,
        List.map_cons]

/-- A comment with a tag of each layout is read back, and so is the empty one
after it. -/
theorem ofSource_printAll_layouts :
    let item : Tag := ⟨.param, "items[].id", "Item number.\n  / as sent"⟩
    let note : Tag := ⟨.description, "", "Needs a login.\n\n* once a day"⟩
    let since : Tag := ⟨.other "since", "1.2", "\n  changed @v"⟩
    let order : CommentBlock :=
      ⟨"Create an order.\n\n * now", [item, note, since]⟩
    let blocks := [("const a = 1;\n", order), ("\n", ⟨"", []⟩)]
    (∀ block ∈ blocks, OpensNone block.1 ∧ block.2.Printable) ∧
      OpensNone "\nmodule.exports = a;" ∧
      ofSource (printAll blocks "\nmodule.exports = a;") =
        [order, ⟨"", []⟩] := by
  intro item note since order blocks
  have unbracketed : ¬ ∃ inner, item.name.toList = '[' :: inner ++ [']'] := by
    rintro ⟨inner, bracketed⟩
    have opening : item.name.toList.head? = some '[' := by
      rw [bracketed]
      rfl
    exact absurd opening (by decide +kernel)
  have solid : item.name.toList.all (!Text.isSpace ·) = true := by
    decide +kernel
  have plain : Tag.PlainName item.name.toList :=
    ⟨by decide +kernel, by simpa using solid, by decide +kernel, unbracketed⟩
  have itemPrintable : item.Printable :=
    ⟨⟨rfl, 'p', "aram".toList, by decide +kernel, by decide,
        List.all_eq_true.mp (by decide +kernel)⟩,
      ⟨plain, by decide +kernel⟩, by decide +kernel⟩
  have notePrintable : note.Printable :=
    ⟨⟨rfl, 'd', "escription".toList, by decide +kernel, by decide,
        List.all_eq_true.mp (by decide +kernel)⟩,
      ⟨rfl, by decide +kernel⟩, by decide +kernel⟩
  have unblank : ∀ character ∈ since.name.toList.head?,
      Text.isBlank character = false := by
    intro character first
    obtain rfl : '1' = character := by simpa [since] using first
    rfl
  have sincePrintable : since.Printable :=
    ⟨⟨rfl, 's', "ince".toList, by decide +kernel, by decide,
        List.all_eq_true.mp (by decide +kernel)⟩,
      ⟨⟨by decide +kernel, unblank⟩, .inr (by decide +kernel)⟩,
      by decide +kernel⟩
  have orderPrintable : order.Printable :=
    { unclosed := by decide +kernel
      solid := by decide +kernel
      description := by decide +kernel
      continued := by decide +kernel
      starts := by decide +kernel
      ends := by decide +kernel
      tags := by
        simpa [order] using ⟨itemPrintable, notePrintable, sincePrintable⟩ }
  have emptyPrintable : (⟨"", []⟩ : CommentBlock).Printable :=
    { unclosed := by decide
      solid := by decide
      description := by decide
      continued := by decide
      starts := by decide
      ends := by decide
      tags := List.forall_mem_nil _ }
  have gaps : ∀ block ∈ blocks, OpensNone block.1 ∧ block.2.Printable := by
    simpa [blocks] using ⟨⟨by decide +kernel, orderPrintable⟩,
      by decide +kernel, emptyPrintable⟩
  have ending : OpensNone "\nmodule.exports = a;" := by
    decide +kernel
  exact ⟨gaps, ending, ofSource_printAll blocks _ gaps ending⟩

end TagDoc.CommentBlock
