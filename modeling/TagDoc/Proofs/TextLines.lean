import Mathlib.Data.List.Chain
import TagDoc.Text

/-!
# Lines, neighbours and ends of texts

Lines that were written with a line feed each are read back, joined lines are
split again, and trimming stops at the first solid character.  A pair of
characters stands nowhere in a text exactly if no two neighbours are that pair.
-/

namespace TagDoc.Text

/-! ## Neighbours -/

/-- Two neighbours that are not a given pair. -/
def Apart (first second left right : Char) : Prop :=
  left = first → right ≠ second

theorem not_pair_infix_iff {first second : Char} {text : List Char} :
    ¬ [first, second] <:+: text ↔ text.IsChain (Apart first second) := by
  rw [List.isChain_iff_forall_rel_of_append_cons_cons]
  constructor
  · rintro absent left right before after rfl rfl rfl
    exact absent ⟨before, after, by simp⟩
  · rintro apart ⟨before, after, rfl⟩
    exact apart (List.append_assoc ..) rfl rfl

/-! ## Ends -/

/-- A text that does not begin with white space. -/
def StartsSolid (text : List Char) : Prop :=
  ∀ character ∈ text.head?, isSpace character = false

/-- A text that does not end in white space. -/
def EndsSolid (text : List Char) : Prop :=
  ∀ character ∈ text.getLast?, isSpace character = false

instance (text : List Char) : Decidable (StartsSolid text) :=
  decidable_of_iff (text.head?.all (!isSpace ·) = true)
    (by simp [StartsSolid, Option.all_eq_true])

instance (text : List Char) : Decidable (EndsSolid text) :=
  decidable_of_iff (text.getLast?.all (!isSpace ·) = true)
    (by simp [EndsSolid, Option.all_eq_true])

theorem EndsSolid.behind {text : List Char} (ends : EndsSolid text)
    (nonempty : text ≠ []) (before : List Char) : EndsSolid (before ++ text) := by
  rw [EndsSolid, List.getLast?_append_of_ne_nil _ nonempty]
  exact ends

theorem dropWhile_of_head? {strip : Char → Bool} {text : List Char}
    (kept : ∀ character ∈ text.head?, strip character = false) :
    text.dropWhile strip = text := by
  cases text with
  | nil => rfl
  | cons character rest =>
      rw [List.dropWhile_cons_of_neg]
      simpa using kept character rfl

theorem dropWhile_append_kept {strip : Char → Bool} {mark : Char}
    (kept : strip mark = false) (before rest : List Char) :
    (before ++ mark :: rest).dropWhile strip =
      before.dropWhile strip ++ mark :: rest := by
  rw [List.dropWhile_append]
  split
  · next consumed =>
      rw [List.isEmpty_iff.mp consumed, List.nil_append]
      exact List.dropWhile_cons_of_neg (by simp [kept])
  · rfl

theorem trimEnd_cons {character : Char} (solid : isSpace character = false)
    (rest : List Char) :
    trimEnd (character :: rest) = character :: trimEnd rest := by
  rw [trimEnd, dropEndWhile, List.reverse_cons,
    dropWhile_append_kept solid, List.reverse_append]
  rfl

/-- A text of white space alone. -/
def AllSpace (text : List Char) : Prop :=
  ∀ character ∈ text, isSpace character = true

theorem AllSpace.mono {text part : List Char} (spaces : AllSpace text)
    (inside : part ⊆ text) : AllSpace part :=
  fun character member => spaces character (inside member)

theorem allSpace_blank : AllSpace [' '] :=
  List.forall_mem_singleton.mpr rfl

theorem allSpace_feed : AllSpace ['\n'] :=
  List.forall_mem_singleton.mpr rfl

theorem allSpace_return : AllSpace ['\r'] :=
  List.forall_mem_singleton.mpr rfl

/-- A text that only indents. -/
def AllBlank (text : List Char) : Prop :=
  ∀ character ∈ text, isBlank character = true

theorem AllBlank.allSpace {text : List Char} (blanks : AllBlank text) :
    AllSpace text := by
  intro character member
  have indents := blanks character member
  rw [isBlank, Bool.or_eq_true, beq_iff_eq, beq_iff_eq] at indents
  rcases indents with rfl | rfl
  · rfl
  · rfl

theorem AllBlank.newline_not_mem {text : List Char} (blanks : AllBlank text) :
    '\n' ∉ text := by
  intro member
  exact absurd (blanks '\n' member) (by decide)

theorem trimStart_append {blank text : List Char} (spaces : AllSpace blank)
    (solid : StartsSolid text) : trimStart (blank ++ text) = text := by
  rw [trimStart, List.dropWhile_append_of_pos spaces]
  exact dropWhile_of_head? solid

theorem trimEnd_append_space {blank : List Char} (spaces : AllSpace blank)
    (text : List Char) : trimEnd (text ++ blank) = trimEnd text := by
  have turned : AllSpace blank.reverse := fun character member =>
    spaces character (List.mem_reverse.mp member)
  rw [trimEnd, dropEndWhile, List.reverse_append,
    List.dropWhile_append_of_pos turned, trimEnd, dropEndWhile]

theorem trimEnd_of_endsSolid {text : List Char} (solid : EndsSolid text) :
    trimEnd text = text := by
  have kept : text.reverse.dropWhile isSpace = text.reverse :=
    dropWhile_of_head? (by rwa [List.head?_reverse])
  rw [trimEnd, dropEndWhile, kept, List.reverse_reverse]

theorem trimEnd_append {text blank : List Char} (solid : EndsSolid text)
    (spaces : AllSpace blank) : trimEnd (text ++ blank) = text :=
  (trimEnd_append_space spaces text).trans (trimEnd_of_endsSolid solid)

theorem trimEndString_append {text blank : String}
    (solid : EndsSolid text.toList) (spaces : AllSpace blank.toList) :
    trimEndString (text ++ blank) = text := by
  rw [trimEndString, String.toList_append, trimEnd_append solid spaces,
    String.ofList_toList]

theorem trim_append_space {blank : List Char} (spaces : AllSpace blank)
    (text : List Char) : trim (text ++ blank) = trim text := by
  rw [trim, trim, trimStart, trimStart, List.dropWhile_append]
  split
  · next consumed =>
      have gone : text.dropWhile isSpace = [] := List.isEmpty_iff.mp consumed
      have left : AllSpace (blank.dropWhile isSpace) :=
        spaces.mono (List.dropWhile_sublist _).subset
      have nothing := trimEnd_append_space left []
      rw [gone, ← nothing, List.nil_append]
  · exact trimEnd_append_space spaces _

/-- A text that is solid at both ends is what trimming leaves of it between
white space. -/
theorem trim_append {before text after : List Char}
    (opening : AllSpace before) (starts : StartsSolid text)
    (ends : EndsSolid text) (closing : AllSpace after) :
    trim (before ++ text ++ after) = text := by
  rw [trim_append_space closing, trim, trimStart_append opening starts,
    trimEnd_of_endsSolid ends]

/-! ## Lines -/

theorem linesFrom_cons {character : Char} (other : character ≠ '\n')
    (read rest : List Char) :
    linesFrom read (character :: rest) =
      linesFrom (character :: read) rest := by
  rw [linesFrom]
  exact other

theorem linesFrom_append {line : List Char} (plain : '\n' ∉ line)
    (read rest : List Char) :
    linesFrom read (line ++ rest) = linesFrom (line.reverse ++ read) rest := by
  induction line generalizing read with
  | nil => rfl
  | cons character line ih =>
      have other : character ≠ '\n' := fun same =>
        plain (same ▸ List.mem_cons_self)
      rw [List.cons_append, linesFrom_cons other,
        ih fun member => plain (List.mem_cons_of_mem _ member)]
      simp

theorem closeLine_reverse {line : List Char}
    (unreturned : line.getLast? ≠ some '\r') :
    closeLine line.reverse = line := by
  unfold closeLine
  split
  · next rest turned =>
      have last : line.getLast? = some '\r' := by
        rw [← List.head?_reverse, turned]
        rfl
      exact (unreturned last).elim
  · exact List.reverse_reverse line

/-- Lines that are written with a line feed each are read as they were. -/
theorem lines_flatMap_append {written : List (List Char)}
    (plain : ∀ line ∈ written, '\n' ∉ line)
    (unreturned : ∀ line ∈ written, line.getLast? ≠ some '\r')
    (rest : List Char) :
    lines (written.flatMap (fun line => line ++ ['\n']) ++ rest) =
      written ++ lines rest := by
  induction written with
  | nil => rfl
  | cons line later ih =>
      obtain ⟨first, others⟩ := List.forall_mem_cons.mp plain
      obtain ⟨firstEnd, otherEnds⟩ := List.forall_mem_cons.mp unreturned
      rw [List.flatMap_cons, List.append_assoc, List.append_assoc, lines,
        linesFrom_append first, List.append_nil, List.singleton_append,
        linesFrom, closeLine_reverse firstEnd, ← lines, ih others otherEnds]
      rfl

theorem linesFrom_append_newline (read text rest : List Char) :
    linesFrom read (text ++ '\n' :: rest) =
      linesFrom read (text ++ ['\n']) ++ lines rest := by
  induction text generalizing read with
  | nil => simp [linesFrom, lines]
  | cons character text ih =>
      by_cases feed : character = '\n'
      · subst feed
        simp only [List.cons_append, linesFrom, ih]
      · rw [List.cons_append, List.cons_append, linesFrom_cons feed,
          linesFrom_cons feed, ih]

theorem length_linesFrom_newline (read text : List Char) :
    (linesFrom read (text ++ ['\n'])).length = text.count '\n' + 1 := by
  induction text generalizing read with
  | nil => simp [linesFrom]
  | cons character text ih =>
      by_cases feed : character = '\n'
      · subst feed
        simp only [List.cons_append, linesFrom, List.length_cons, ih,
          List.count_cons_self]
      · rw [List.cons_append, linesFrom_cons feed, ih,
          List.count_cons_of_ne feed]

/-- A text before a line feed is one line exactly if it has no line feed, and
then it is this line. -/
theorem lines_newline_eq_singleton_iff {text line : List Char}
    (unreturned : text.getLast? ≠ some '\r') :
    lines (text ++ ['\n']) = [line] ↔ '\n' ∉ text ∧ text = line := by
  have single (plain : '\n' ∉ text) : lines (text ++ ['\n']) = [text] := by
    rw [lines, ← List.append_nil (text ++ ['\n']), List.append_assoc,
      linesFrom_append plain, List.append_nil, List.append_nil, linesFrom,
      closeLine_reverse unreturned]
    rfl
  constructor
  · intro read
    have count := length_linesFrom_newline [] text
    rw [← lines, read, List.length_singleton] at count
    have plain : '\n' ∉ text := List.count_eq_zero.mp (by omega)
    rw [single plain] at read
    exact ⟨plain, (List.cons.inj read).1⟩
  · rintro ⟨plain, rfl⟩
    exact single plain

theorem intercalate_cons {separator : Char} (first : List Char)
    (rest : List (List Char)) :
    [separator].intercalate (first :: rest) =
      first ++ rest.flatMap (fun line => separator :: line) := by
  induction rest generalizing first with
  | nil => simp
  | cons second rest ih =>
      rw [List.intercalate_cons_cons, ih second]
      simp

end TagDoc.Text
