import Mathlib.Data.List.Chain
import TagDoc.Proofs.TextLines

/-!
# Tables in markdown

A table is written as a line of headings, a line of delimiters and a row for
each item, the texts of every row between bars.  Nothing is escaped.  A row is
read as it was written, as one line with the texts in its cells, exactly if
none of its texts has a line feed, a bar that divides the line, or an end that
takes the bar after it into the cell.
-/

namespace TagDoc

/-- A table before it is written.  The padding stands on both sides of each
heading and of each text of a row. -/
structure MarkdownTable where
  padding : String
  header : List String
  delimiters : List String
  rows : List (List String)
deriving DecidableEq, Repr

namespace MarkdownTable

/-! ## Writing -/

/-- The texts of a line between bars. -/
def barred (padding : String) (texts : List String) : String :=
  "|" ++ String.join (texts.map fun text => padding ++ text ++ padding ++ "|")

/-- What stands between the bars around a text. -/
def padded (padding text : String) : List Char :=
  padding.toList ++ text.toList ++ padding.toList

def headerLine (table : MarkdownTable) : String :=
  barred table.padding table.header

def delimiterLine (table : MarkdownTable) : String :=
  barred "" table.delimiters

def markdown (table : MarkdownTable) : String :=
  table.headerLine ++ "\n" ++ table.delimiterLine ++ "\n" ++
    String.join (table.rows.map fun row => barred table.padding row ++ "\n")

theorem toList_barred (padding : String) (texts : List String) :
    (barred padding texts).toList =
      '|' :: (texts.map (padded padding)).flatMap (· ++ ['|']) := by
  simp [barred, padded, String.toList_join, List.flatMap_map]

/-! ## Reading -/

/-- The pieces of a text between the bars that divide it, after a given
character.  A bar directly after a backslash does not divide. -/
def piecesAfter : Char → List Char → List (List Char)
  | _, [] => [[]]
  | previous, character :: rest =>
      if character = '|' ∧ previous ≠ '\\' then
        [] :: piecesAfter character rest
      else (piecesAfter character rest).modifyHead (character :: ·)

/-- The cells of a line: the pieces between its first and its last bar. -/
def cells (line : List Char) : List (List Char) :=
  (piecesAfter '\n' line).tail.dropLast

/-- Two neighbours of which the second does not divide. -/
def Joins (left right : Char) : Prop :=
  right = '|' → left = '\\'

instance (left right : Char) : Decidable (Joins left right) :=
  inferInstanceAs (Decidable (_ → _))

/-- A text after a character in which no bar divides. -/
def UndividedAfter (previous : Char) (text : List Char) : Prop :=
  (previous :: text).IsChain Joins

/-- A text between bars in which no bar divides: each of its bars stands
directly after a backslash. -/
def Undivided (text : List Char) : Prop :=
  UndividedAfter '|' text

instance (text : List Char) : Decidable (Undivided text) :=
  inferInstanceAs (Decidable (List.IsChain _ _))

theorem piecesAfter_ne_nil (previous : Char) (text : List Char) :
    piecesAfter previous text ≠ [] := by
  induction text generalizing previous with
  | nil => exact List.cons_ne_nil _ _
  | cons character rest ih =>
      rw [piecesAfter]
      split
      · exact List.cons_ne_nil _ _
      · simpa [List.modifyHead_eq_nil_iff] using ih character

theorem piecesAfter_append {previous : Char} {text : List Char}
    (undivided : UndividedAfter previous text)
    (ended : (previous :: text).getLast? ≠ some '\\') (rest : List Char) :
    piecesAfter previous (text ++ '|' :: rest) =
      text :: piecesAfter '|' rest := by
  induction text generalizing previous with
  | nil =>
      have divides : previous ≠ '\\' := by simpa using ended
      rw [List.nil_append, piecesAfter, if_pos ⟨rfl, divides⟩]
  | cons character text ih =>
      obtain ⟨joined, later⟩ := List.isChain_cons_cons.mp undivided
      have kept : ¬ (character = '|' ∧ previous ≠ '\\') :=
        fun divides => divides.2 (joined divides.1)
      rw [List.cons_append, piecesAfter, if_neg kept,
        ih later (by simpa using ended), List.modifyHead_cons]

theorem undivided_of_head?_piecesAfter {previous : Char}
    {text rest : List Char}
    (first : (piecesAfter previous (text ++ '|' :: rest)).head? = some text) :
    UndividedAfter previous text ∧
      (previous :: text).getLast? ≠ some '\\' := by
  induction text generalizing previous with
  | nil =>
      refine ⟨List.isChain_singleton _, ?_⟩
      rintro last
      obtain rfl : previous = '\\' := by simpa using last
      rw [List.nil_append, piecesAfter, if_neg (by simp)] at first
      simp at first
  | cons character text ih =>
      rw [List.cons_append, piecesAfter] at first
      split at first
      · simp at first
      · next kept =>
          have deeper : (piecesAfter character
              (text ++ '|' :: rest)).head? = some text := by
            simpa using first
          obtain ⟨later, ended⟩ := ih deeper
          have joined : Joins previous character := by
            intro bar
            by_contra divides
            exact kept ⟨bar, divides⟩
          exact ⟨List.isChain_cons_cons.mpr ⟨joined, later⟩,
            by simpa using ended⟩

/-- A text that is the whole of a cell between two bars: no bar divides it,
and it does not take the bar after it into the cell. -/
structure FillsCell (text : List Char) : Prop where
  undivided : Undivided text
  ended : text.getLast? ≠ some '\\'

theorem fillsCell_iff_after {text : List Char} :
    FillsCell text ↔
      UndividedAfter '|' text ∧ ('|' :: text).getLast? ≠ some '\\' := by
  have last : ('|' :: text).getLast? = some '\\' ↔
      text.getLast? = some '\\' := by
    cases text with
    | nil => simp
    | cons character rest => simp
  rw [ne_eq, last]
  exact ⟨fun fills => ⟨fills.undivided, fills.ended⟩,
    fun parts => ⟨parts.1, parts.2⟩⟩

/-- The cells of a line are the texts that it was made of exactly if each of
them fills its cell. -/
theorem cells_flatMap_iff {texts : List (List Char)} :
    cells ('|' :: texts.flatMap (· ++ ['|'])) = texts ↔
      ∀ text ∈ texts, FillsCell text := by
  have opened : cells ('|' :: texts.flatMap (· ++ ['|'])) =
      (piecesAfter '|' (texts.flatMap (· ++ ['|']))).dropLast := by
    rw [cells, piecesAfter, if_pos ⟨rfl, by decide⟩, List.tail_cons]
  rw [opened]
  clear opened
  induction texts with
  | nil => simp [piecesAfter]
  | cons text rest ih =>
      have others : piecesAfter '|' (rest.flatMap (· ++ ['|'])) ≠ [] :=
        piecesAfter_ne_nil _ _
      rw [List.flatMap_cons, List.append_assoc, List.singleton_append]
      constructor
      · intro read
        have first := congrArg List.head? read
        rw [List.head?_dropLast] at first
        split at first
        · have fills := undivided_of_head?_piecesAfter first
          rw [piecesAfter_append fills.1 fills.2,
            List.dropLast_cons_of_ne_nil others] at read
          exact List.forall_mem_cons.mpr ⟨fillsCell_iff_after.mpr fills,
            ih.mp (List.cons.inj read).2⟩
        · cases first
      · intro fill
        obtain ⟨fills, later⟩ := List.forall_mem_cons.mp fill
        obtain ⟨undivided, ended⟩ := fillsCell_iff_after.mp fills
        rw [piecesAfter_append undivided ended,
          List.dropLast_cons_of_ne_nil others, ih.mpr later]

/-! ## Rows -/

/-- The lines that a row takes up. -/
def rowLines (table : MarkdownTable) (row : List String) : List (List Char) :=
  Text.lines (barred table.padding row ++ "\n").toList

/-- A row is one line, which has as many cells as the header, and these are
the texts of the row. -/
def ReadsBack (table : MarkdownTable) (row : List String) : Prop :=
  ∃ line, table.rowLines row = [line] ∧
    (cells line).length = (cells table.headerLine.toList).length ∧
    cells line = row.map (padded table.padding)

/-- A text that is one cell on one line with the given padding around it. -/
structure Fits (padding text : String) : Prop where
  plain : '\n' ∉ padded padding text
  fills : FillsCell (padded padding text)

/-- A table with headings that are cells, and with a text under each heading
in every row. -/
structure WellFormed (table : MarkdownTable) : Prop where
  headings : ∀ heading ∈ table.header, Fits table.padding heading
  delimiters : ∀ delimiter ∈ table.delimiters, '\n' ∉ delimiter.toList
  rows : ∀ row ∈ table.rows, row.length = table.header.length

variable {table : MarkdownTable} {padding : String} {texts row : List String}

theorem getLast?_barred (padding : String) (texts : List String) :
    (barred padding texts).toList.getLast? = some '|' := by
  rw [toList_barred]
  induction texts using List.reverseRecOn with
  | nil => rfl
  | append_singleton texts text _ => simp [List.getLast?_cons]

theorem newline_notMem_barred :
    '\n' ∉ (barred padding texts).toList ↔
      ∀ text ∈ texts, '\n' ∉ padded padding text := by
  simp [toList_barred, padded]

theorem cells_barred_iff :
    cells (barred padding texts).toList = texts.map (padded padding) ↔
      ∀ text ∈ texts, FillsCell (padded padding text) := by
  rw [toList_barred, cells_flatMap_iff, List.forall_mem_map]

theorem rowLines_eq_singleton_iff {line : List Char} :
    table.rowLines row = [line] ↔
      (∀ text ∈ row, '\n' ∉ padded table.padding text) ∧
        (barred table.padding row).toList = line := by
  have unreturned : (barred table.padding row).toList.getLast? ≠ some '\r' := by
    rw [getLast?_barred]
    decide
  rw [rowLines, String.toList_append, ← newline_notMem_barred]
  exact Text.lines_newline_eq_singleton_iff unreturned

theorem WellFormed.length_cells_headerLine (formed : table.WellFormed) :
    (cells table.headerLine.toList).length = table.header.length := by
  rw [headerLine, cells_barred_iff.mpr fun text member =>
    (formed.headings text member).fills, List.length_map]

/-- A row of a well-formed table reads back exactly if its texts fit. -/
theorem readsBack_iff (formed : table.WellFormed) (member : row ∈ table.rows) :
    table.ReadsBack row ↔ ∀ text ∈ row, Fits table.padding text := by
  constructor
  · rintro ⟨line, read, _, same⟩
    obtain ⟨plain, rfl⟩ := rowLines_eq_singleton_iff.mp read
    have fill := cells_barred_iff.mp same
    exact fun text inside => ⟨plain text inside, fill text inside⟩
  · intro fit
    have same : cells (barred table.padding row).toList =
        row.map (padded table.padding) :=
      cells_barred_iff.mpr fun text inside => (fit text inside).fills
    refine ⟨_, rowLines_eq_singleton_iff.mpr
      ⟨fun text inside => (fit text inside).plain, rfl⟩, ?_, same⟩
    rw [same, List.length_map, formed.rows row member,
      formed.length_cells_headerLine]

/-! ## Whole tables -/

theorem lines_flatMap_rows (table : MarkdownTable)
    (rows : List (List String)) :
    Text.lines (rows.flatMap fun row =>
        (barred table.padding row ++ "\n").toList) =
      rows.flatMap table.rowLines := by
  induction rows with
  | nil => rfl
  | cons row rest ih =>
      rw [List.flatMap_cons, List.flatMap_cons, ← ih, rowLines,
        String.toList_append, Text.lines, List.append_assoc]
      exact Text.linesFrom_append_newline [] _ _

/-- The lines of a table are the two header lines and those of its rows, one
row after the other. -/
theorem lines_markdown (formed : table.WellFormed) :
    Text.lines table.markdown.toList =
      table.headerLine.toList :: table.delimiterLine.toList ::
        table.rows.flatMap table.rowLines := by
  have headings : '\n' ∉ table.headerLine.toList :=
    newline_notMem_barred.mpr fun text member =>
      (formed.headings text member).plain
  have delimiters : '\n' ∉ table.delimiterLine.toList :=
    newline_notMem_barred.mpr fun text member => by
      simpa [padded] using formed.delimiters text member
  have plain : ∀ line ∈ [table.headerLine.toList, table.delimiterLine.toList],
      '\n' ∉ line := by
    simpa using ⟨headings, delimiters⟩
  have head := Text.lines_flatMap_append plain
    (by simp [headerLine, delimiterLine, getLast?_barred])
    (table.rows.flatMap fun row =>
      (barred table.padding row ++ "\n").toList)
  rw [lines_flatMap_rows] at head
  simpa [markdown, String.toList_join, List.flatMap_map] using head

theorem lines_of_readsBack {rows : List (List String)}
    (each : ∀ row ∈ rows, table.ReadsBack row) :
    (rows.flatMap table.rowLines).length = rows.length ∧
      ∀ line ∈ rows.flatMap table.rowLines,
        (cells line).length = (cells table.headerLine.toList).length := by
  induction rows with
  | nil => exact ⟨rfl, List.forall_mem_nil _⟩
  | cons row rest ih =>
      obtain ⟨⟨line, read, count, _⟩, later⟩ := List.forall_mem_cons.mp each
      obtain ⟨length, counts⟩ := ih later
      rw [List.flatMap_cons, read, List.singleton_append]
      exact ⟨congrArg (· + 1) length,
        List.forall_mem_cons.mpr ⟨count, counts⟩⟩

/-! ## Paddings -/

theorem undividedAfter_iff {first second : Char} (firstPlain : first ≠ '\\')
    (secondPlain : second ≠ '\\') {text : List Char} :
    UndividedAfter first text ↔ UndividedAfter second text := by
  cases text with
  | nil => simp [UndividedAfter]
  | cons character rest =>
      simp [UndividedAfter, List.isChain_cons_cons, Joins, firstPlain,
        secondPlain]

/-- A text without a line feed and without a bar that divides. -/
structure Plain (text : String) : Prop where
  line : '\n' ∉ text.toList
  undivided : Undivided text.toList

instance (text : String) : Decidable (Plain text) :=
  decidable_of_iff ('\n' ∉ text.toList ∧ Undivided text.toList)
    ⟨fun parts => ⟨parts.1, parts.2⟩, fun plain => ⟨plain.1, plain.2⟩⟩

/-- Between blanks a text may end in a backslash. -/
theorem fits_blank_iff {text : String} : Fits " " text ↔ Plain text := by
  have spread : padded " " text = ' ' :: text.toList ++ [' '] := by
    simp [padded]
  have opened : Undivided (' ' :: text.toList ++ [' ']) ↔
      UndividedAfter ' ' (text.toList ++ [' ']) := by
    simp [Undivided, UndividedAfter, List.isChain_cons_cons, Joins]
  have closed : UndividedAfter ' ' (text.toList ++ [' ']) ↔
      UndividedAfter ' ' text.toList := by
    rw [UndividedAfter, UndividedAfter, ← List.cons_append,
      List.isChain_append]
    simp [Joins]
  have undivided : Undivided (padded " " text) ↔ Undivided text.toList := by
    rw [spread, opened, closed]
    exact undividedAfter_iff (by decide) (by decide)
  constructor
  · rintro ⟨plain, fills⟩
    exact ⟨by simpa [spread] using plain, undivided.mp fills.undivided⟩
  · rintro ⟨plain, joined⟩
    exact ⟨by simpa [spread] using plain, undivided.mpr joined,
      by simp [spread, List.getLast?_cons]⟩

/-- Directly between bars it may not. -/
theorem fits_bare_iff {text : String} :
    Fits "" text ↔ Plain text ∧ text.toList.getLast? ≠ some '\\' := by
  have bare : padded "" text = text.toList := by simp [padded]
  constructor
  · rintro ⟨plain, fills⟩
    rw [bare] at plain fills
    exact ⟨⟨plain, fills.undivided⟩, fills.ended⟩
  · rintro ⟨⟨plain, undivided⟩, ended⟩
    exact ⟨bare ▸ plain, bare ▸ ⟨undivided, ended⟩⟩

/-! ## Tables of named items -/

/-- A table has a row for each name, in order, and the lines after its two
header lines are those of the rows.  A row reads back exactly if its texts fit,
and if all texts do, there is one line for each name, with as many cells as the
header. -/
structure Records (table : MarkdownTable) (names : List String)
    (fits : String → Prop) : Prop where
  named : table.rows.map List.head? = names.map some
  lines : Text.lines table.markdown.toList =
    table.headerLine.toList :: table.delimiterLine.toList ::
      table.rows.flatMap table.rowLines
  rows : ∀ row ∈ table.rows,
    (table.ReadsBack row ↔ ∀ text ∈ row, fits text)
  aligned : (∀ row ∈ table.rows, ∀ text ∈ row, fits text) →
    (table.rows.flatMap table.rowLines).length = names.length ∧
      ∀ line ∈ table.rows.flatMap table.rowLines,
        (cells line).length = (cells table.headerLine.toList).length

theorem WellFormed.records (formed : table.WellFormed) {names : List String}
    (listed : table.rows.map List.head? = names.map some) :
    table.Records names (Fits table.padding) where
  named := listed
  lines := lines_markdown formed
  rows := fun _ member => readsBack_iff formed member
  aligned := by
    intro fit
    have count : table.rows.length = names.length := by
      simpa using congrArg List.length listed
    rw [← count]
    exact lines_of_readsBack fun row member =>
      (readsBack_iff formed member).mpr (fit row member)

theorem WellFormed.records_blank (formed : table.WellFormed)
    (blank : table.padding = " ") {names : List String}
    (listed : table.rows.map List.head? = names.map some) :
    table.Records names Plain := by
  have fits : Fits table.padding = Plain := by
    rw [blank]
    exact funext fun _ => propext fits_blank_iff
  exact fits ▸ formed.records listed

theorem WellFormed.records_bare (formed : table.WellFormed)
    (bare : table.padding = "") {names : List String}
    (listed : table.rows.map List.head? = names.map some) :
    table.Records names fun text =>
      Plain text ∧ text.toList.getLast? ≠ some '\\' := by
  have fits : Fits table.padding = fun text =>
      Plain text ∧ text.toList.getLast? ≠ some '\\' := by
    rw [bare]
    exact funext fun _ => propext fits_bare_iff
  exact fits ▸ formed.records listed

end MarkdownTable

end TagDoc
