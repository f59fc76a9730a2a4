import TagDoc.CommentBlock
import TagDoc.Proofs.TextLines

/-!
# The lines of a tag

A tag is written as a tag line and the further lines of its text.  What the
tag line holds behind the tag's kind depends on the kind: parameters and
returns have a name and the first line of their text, notes the first line of
their text, and all other tags a name.  Printable tags are read from their
lines as they were, with or without an empty line after them.
-/

namespace TagDoc

/-- The lines of a text; an empty text has none. -/
def textLines (text : String) : List (List Char) :=
  if text.isEmpty then [] else text.toList.splitOn '\n'

/-- A line behind a space, or nothing for an empty line. -/
def spaced (line : List Char) : List Char :=
  if line.isEmpty then [] else ' ' :: line

/-- The first line of a text, and the others each behind a line feed. -/
theorem textLines_join (text : String) :
    (textLines text).headD [] ++
        (textLines text).tail.flatMap (fun line => '\n' :: line) =
      text.toList := by
  unfold textLines
  split
  · next empty =>
      rw [String.isEmpty_iff.mp empty]
      rfl
  · cases lines : text.toList.splitOn '\n' with
    | nil => exact (List.splitOn_ne_nil _ _ lines).elim
    | cons first rest =>
        rw [List.headD_cons, List.tail_cons, ← Text.intercalate_cons, ← lines]
        exact List.intercalate_splitOn '\n'

/-- What a tag line holds behind the kind of the tag: a name and a text, a text
alone, or a name alone. -/
inductive TagLayout where
  | named
  | note
  | bare
deriving DecidableEq

def TagKind.layout : TagKind → TagLayout
  | .param | .returns => .named
  | .description => .note
  | _ => .bare

theorem textLines_first_of_newline {text : String}
    (bare : text = "" ∨ text.toList.head? = some '\n') :
    (textLines text).headD [] = [] := by
  rcases bare with rfl | newline
  · rfl
  · obtain ⟨rest, spelled⟩ := List.head?_eq_some_iff.mp newline
    have nonempty : ¬ text.isEmpty = true := by
      intro empty
      rw [String.isEmpty_iff.mp empty] at spelled
      cases spelled
    have split := List.splitOn_append_cons_self (a := '\n') [] rest
    rw [List.nil_append, List.splitOn_nil] at split
    rw [textLines, if_neg nonempty, spelled, split]
    rfl

namespace Tag

/-- The tag line of a tag behind its kind, with the first line of its text. -/
def lineRest (tag : Tag) (first : List Char) : List Char :=
  match tag.kind.layout with
  | .named => tag.name.toList ++ spaced first
  | .note => first
  | .bare => tag.name.toList

/-- The tag line of a tag, and the other lines of its text. -/
def printedLines (tag : Tag) : List (List Char) :=
  let text := textLines tag.description
  ('@' :: tag.kind.name.toList ++ spaced (tag.lineRest (text.headD []))) ::
    text.tail

/-! ## Printable tags -/

/-- A name that stands alone in front of a text: it is not empty, without white
space, and neither begins like a type in braces nor stands in brackets. -/
structure PlainName (name : List Char) : Prop where
  nonempty : name ≠ []
  solid : ∀ character ∈ name, Text.isSpace character = false
  braceless : name.head? ≠ some '{'
  unbracketed : ¬ ∃ inner, name = '[' :: inner ++ [']']

/-- What the name and the text of a tag have to be for the layout of its
line. -/
def FitsLayout (tag : Tag) : Prop :=
  match tag.kind.layout with
  | .named =>
      PlainName tag.name.toList ∧
        Text.StartsSolid ((textLines tag.description).headD [])
  | .note =>
      tag.name = "" ∧ Text.StartsSolid tag.description.toList
  | .bare =>
      ('\n' ∉ tag.name.toList ∧
        ∀ character ∈ tag.name.toList.head?, Text.isBlank character = false) ∧
      (tag.description = "" ∨ tag.description.toList.head? = some '\n')

/-- A kind that its name spells. -/
structure SpelledKind (kind : TagKind) : Prop where
  named : TagKind.ofName kind.name = kind
  letter : ∃ first rest, kind.name.toList = first :: rest ∧
    Text.isLetter first = true ∧
    ∀ character ∈ rest, CommentBlock.isNameCharacter character = true

structure Printable (tag : Tag) : Prop where
  kind : SpelledKind tag.kind
  fits : tag.FitsLayout
  ends : Text.EndsSolid tag.description.toList

end Tag

namespace CommentBlock

/-- A line that begins with `@` and a letter. -/
def opensTag : List Char → Bool
  | '@' :: letter :: _ => Text.isLetter letter
  | _ => false

theorem openTag?_of_not_opensTag {line : List Char}
    (plain : opensTag line = false) : openTag? line = none := by
  unfold openTag? tagLine?
  split
  · next first rest =>
      have other : ¬ Text.isLetter first = true := by
        simpa [opensTag] using plain
      rw [if_neg other]
      rfl
  · rfl

/-! ## Reading the tag line -/

theorem tagLine?_print {kind : TagKind} (spelled : Tag.SpelledKind kind)
    {rest : List Char}
    (unblank : ∀ character ∈ rest.head?, Text.isBlank character = false) :
    tagLine? ('@' :: kind.name.toList ++ spaced rest) =
      some (kind.name.toList, rest) := by
  obtain ⟨first, others, name, letter, inside⟩ := spelled.letter
  rw [name, List.cons_append, List.cons_append, tagLine?, if_pos letter,
    List.takeWhile_append_of_pos inside, List.dropWhile_append_of_pos inside]
  cases rest with
  | nil => simp [spaced]
  | cons character rest =>
      have behind : (' ' :: character :: rest).dropWhile Text.isBlank =
          character :: rest :=
        Text.dropWhile_of_head? unblank
      have stop : isNameCharacter ' ' = false := by decide
      simp [spaced, stop, behind]

theorem splitAtFirst_append {here : Char → Bool} {before : List Char}
    (absent : ∀ character ∈ before, here character = false) {mark : Char}
    (found : here mark = true) (after : List Char) :
    Text.splitAtFirst here (before ++ mark :: after) =
      some (before, after) := by
  induction before with
  | nil => simp [Text.splitAtFirst, found]
  | cons character rest ih =>
      obtain ⟨first, others⟩ := List.forall_mem_cons.mp absent
      simp [Text.splitAtFirst, first, ih others]

theorem splitAtFirst_eq_none {here : Char → Bool} {text : List Char}
    (absent : ∀ character ∈ text, here character = false) :
    Text.splitAtFirst here text = none := by
  induction text with
  | nil => rfl
  | cons character rest ih =>
      obtain ⟨first, others⟩ := List.forall_mem_cons.mp absent
      simp [Text.splitAtFirst, first, ih others]

theorem splitWord_spaced {name first : List Char}
    (solid : ∀ character ∈ name, Text.isSpace character = false)
    (starts : Text.StartsSolid first) :
    splitWord (name ++ spaced first) = (name, first) := by
  cases first with
  | nil =>
      rw [splitWord, spaced, List.isEmpty_nil, if_pos rfl, List.append_nil,
        splitAtFirst_eq_none solid]
  | cons character rest =>
      have space : Text.isSpace ' ' = true := by decide
      have kept : Text.trimStart (character :: rest) = character :: rest :=
        Text.dropWhile_of_head? starts
      rw [splitWord, spaced, List.isEmpty_cons, if_neg Bool.false_ne_true,
        splitAtFirst_append solid space]
      exact congrArg (Prod.mk name) kept

theorem dropType_of_braceless {text : List Char}
    (braceless : text.head? ≠ some '{') : dropType text = text := by
  unfold dropType
  split
  · exact (braceless rfl).elim
  · rfl

theorem dropBrackets_of_plain {name : List Char} (plain : Tag.PlainName name) :
    dropBrackets name = name := by
  unfold dropBrackets
  split
  · next inner =>
      have open_ended : ¬ inner.getLast? = some ']' := by
        intro last
        obtain ⟨within, rfl⟩ := List.getLast?_eq_some_iff.mp last
        exact plain.unbracketed ⟨within, rfl⟩
      rw [if_neg open_ended]
  · rfl

theorem named_print {kind : TagKind} {name : String} {first : List Char}
    (plain : Tag.PlainName name.toList) (starts : Text.StartsSolid first) :
    openTag.named (name.toList ++ spaced first) kind =
      ⟨kind, name, String.ofList first⟩ := by
  have braceless : (name.toList ++ spaced first).head? ≠ some '{' := by
    rw [List.head?_append_of_ne_nil _ plain.nonempty]
    exact plain.braceless
  rw [openTag.named, dropType_of_braceless braceless,
    splitWord_spaced plain.solid starts]
  simp [dropBrackets_of_plain plain]

theorem isBlank_of_solid {character : Char}
    (solid : Text.isSpace character = false) :
    Text.isBlank character = false := by
  rw [Text.isBlank, Bool.or_eq_false_iff, beq_eq_false_iff_ne,
    beq_eq_false_iff_ne]
  constructor
  · rintro rfl
    exact absurd solid (by decide)
  · rintro rfl
    exact absurd solid (by decide)

theorem head?_of_first {text : String} {holds : Char → Prop}
    (starts : ∀ character ∈ text.toList.head?, holds character) :
    ∀ character ∈ ((textLines text).headD []).head?, holds character := by
  intro character member
  apply starts
  rw [← textLines_join text, List.head?_append, Option.mem_def.mp member]
  rfl

/-- What stands behind the kind of a printable tag does not begin with a
blank. -/
theorem head?_lineRest {tag : Tag} (fits : tag.FitsLayout) :
    ∀ character ∈ (tag.lineRest ((textLines tag.description).headD [])).head?,
      Text.isBlank character = false := by
  have named (plain : Tag.PlainName tag.name.toList) (first : List Char) :
      ∀ character ∈ (tag.name.toList ++ spaced first).head?,
        Text.isBlank character = false := by
    intro character member
    rw [List.head?_append_of_ne_nil _ plain.nonempty] at member
    exact isBlank_of_solid (plain.solid _ (List.mem_of_mem_head? member))
  unfold Tag.FitsLayout at fits
  unfold Tag.lineRest
  cases layout : tag.kind.layout with
  | named =>
      simp only [layout] at fits
      exact named fits.1 _
  | note =>
      simp only [layout] at fits
      exact head?_of_first fun character member =>
        isBlank_of_solid (fits.2 character member)
  | bare =>
      simp only [layout] at fits
      exact fits.1.2

theorem openTag_of_named {kind : TagKind}
    (named : TagKind.ofName kind.name = kind) (rest : List Char) :
    openTag kind.name.toList rest =
      match kind.layout with
      | .named => openTag.named rest kind
      | .note => ⟨kind, "", String.ofList rest⟩
      | .bare => ⟨kind, String.ofList rest, ""⟩ := by
  rw [openTag, String.ofList_toList, named]
  cases kind <;> rfl

theorem openTag?_print {tag : Tag} (printable : tag.Printable) :
    let first := (textLines tag.description).headD []
    openTag? ('@' :: tag.kind.name.toList ++ spaced (tag.lineRest first)) =
      some { tag with description := String.ofList first } := by
  intro first
  have line := tagLine?_print printable.kind (head?_lineRest printable.fits)
  have opened : openTag?
      ('@' :: tag.kind.name.toList ++ spaced (tag.lineRest first)) =
        some (openTag tag.kind.name.toList (tag.lineRest first)) := by
    rw [openTag?, line]
    rfl
  rw [opened, openTag_of_named printable.kind.named, Tag.lineRest]
  have fits := printable.fits
  unfold Tag.FitsLayout at fits
  cases layout : tag.kind.layout with
  | named =>
      simp only [layout] at fits ⊢
      rw [named_print fits.1 fits.2]
  | note =>
      simp only [layout] at fits ⊢
      rw [fits.1]
  | bare =>
      simp only [layout] at fits ⊢
      have empty : first = [] := textLines_first_of_newline fits.2
      simp [empty]

/-! ## Reading the other lines -/

/-- Lines go on below a tag that has a text or is no note. -/
theorem foldl_continueTag {tag : Tag} {lines : List (List Char)}
    (going : tag.kind ≠ .description ∨ tag.description ≠ "") :
    lines.foldl continueTag tag =
      { tag with
        description := tag.description ++
          String.ofList (lines.flatMap fun line => '\n' :: line) } := by
  induction lines generalizing tag with
  | nil => simp
  | cons line rest ih =>
      have closed : ¬ (tag.kind = .description ∧ tag.description.isEmpty) := by
        rintro ⟨note, empty⟩
        rcases going with other | nonempty
        · exact other note
        · exact nonempty (String.isEmpty_iff.mp empty)
      have step : continueTag tag line =
          { tag with
            description := tag.description ++ "\n" ++ String.ofList line } :=
        if_neg closed
      have written : (continueTag tag line).description ≠ "" := by
        rw [step]
        intro empty
        simpa using congrArg String.toList empty
      rw [List.foldl_cons, ih (.inr written), step]
      simp [String.append_assoc]

theorem closeTag_going {tag : Tag} {lines : List (List Char)}
    (going : tag.kind ≠ .description ∨ tag.description ≠ "")
    {text : String} {blank : List Char}
    (spelled : tag.description.toList ++
      lines.flatMap (fun line => '\n' :: line) = text.toList ++ blank)
    (ends : Text.EndsSolid text.toList)
    (blanks : ∀ character ∈ blank, Text.isSpace character = true) :
    closeTag tag lines = { tag with description := text } := by
  have trimmed : Text.trimEndString (tag.description ++
      String.ofList (lines.flatMap fun line => '\n' :: line)) = text := by
    rw [Text.trimEndString, String.toList_append, String.toList_ofList, spelled,
      Text.trimEnd_append ends blanks, String.ofList_toList]
  rw [closeTag, foldl_continueTag going]
  simp only [trimmed]

theorem eq_empty_of_first {text : String}
    (starts : Text.StartsSolid text.toList)
    (first : (textLines text).headD [] = []) : text = "" := by
  have joined := textLines_join text
  rw [first, List.nil_append] at joined
  cases others : (textLines text).tail with
  | nil =>
      rw [others] at joined
      exact String.toList_eq_nil_iff.mp joined.symm
  | cons line rest =>
      rw [others] at joined
      have newline := starts '\n' (by rw [← joined]; rfl)
      exact absurd newline (by decide)

theorem isSpace_emptyLine {blank : List (List Char)}
    (empty : blank = [] ∨ blank = [[]]) :
    ∀ character ∈ blank.flatMap (fun line => '\n' :: line),
      Text.isSpace character = true := by
  rcases empty with rfl | rfl
  · exact List.forall_mem_nil _
  · exact List.forall_mem_singleton.mpr rfl

/-- A printable tag is closed after the other lines of its text, and an empty
line after them changes nothing. -/
theorem closeTag_print {tag : Tag} (printable : tag.Printable)
    {blank : List (List Char)} (empty : blank = [] ∨ blank = [[]]) :
    let text := textLines tag.description
    closeTag { tag with description := String.ofList (text.headD []) }
      (text.tail ++ blank) = tag := by
  intro text
  by_cases going : tag.kind ≠ .description ∨ text.headD [] ≠ []
  · have opened : tag.kind ≠ .description ∨
        String.ofList (text.headD []) ≠ "" := by
      simpa using going
    have spelled : (String.ofList (text.headD [])).toList ++
        (text.tail ++ blank).flatMap (fun line => '\n' :: line) =
          tag.description.toList ++ blank.flatMap fun line => '\n' :: line := by
      rw [String.toList_ofList, List.flatMap_append, ← List.append_assoc,
        textLines_join]
    exact closeTag_going opened spelled printable.ends
      (isSpace_emptyLine empty)
  · -- A note without text takes the empty line as its first.
    obtain ⟨note, first⟩ := not_or.mp going
    have kind : tag.kind = .description := not_not.mp note
    have fits := printable.fits
    rw [Tag.FitsLayout, kind] at fits
    have nothing := eq_empty_of_first fits.2 (not_not.mp first)
    obtain ⟨_, name, description⟩ := tag
    obtain rfl : description = "" := nothing
    obtain rfl : name = "" := fits.1
    obtain rfl := kind
    rcases empty with rfl | rfl <;> rfl

end CommentBlock

end TagDoc
