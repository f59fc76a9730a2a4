import Mathlib.Data.List.TakeWhile
import TagDoc.Proofs.TextLines

/-!
# Texts without a character at their ends

Stripping a character takes the runs of it at the ends of a text and nothing
else: `exists_around` and `exists_behind`.  What it leaves is determined by
that, so more of the character at an end changes nothing:
`stripChar_of_around`, `stripCharEnd_of_behind` and `stripChar_padded`.
-/

namespace TagDoc.Text

/-- A text that consists of one character, any number of times. -/
def Only (character : Char) (text : List Char) : Prop :=
  ∀ other ∈ text, other = character

/-- A text with a character at neither end. -/
structure Bare (character : Char) (text : List Char) : Prop where
  head : text.head? ≠ some character
  last : text.getLast? ≠ some character

instance (character : Char) (text : List Char) :
    Decidable (Only character text) :=
  inferInstanceAs (Decidable (∀ other ∈ text, other = character))

theorem only_nil (character : Char) : Only character [] :=
  fun _ member => (List.not_mem_nil member).elim

theorem bare_nil (character : Char) : Bare character [] where
  head := by simp
  last := by simp

theorem only_replicate (character : Char) (count : Nat) :
    Only character (List.replicate count character) :=
  fun _ member => List.eq_of_mem_replicate member

section Runs

variable {character : Char} {text : List Char}

theorem only_takeWhile : Only character (text.takeWhile (· == character)) := by
  intro other member
  have strips : (other == character) = true :=
    List.mem_takeWhile_imp (p := (· == character)) member
  exact beq_iff_eq.mp strips

theorem Only.append {rest : List Char} (one : Only character text)
    (two : Only character rest) : Only character (text ++ rest) := by
  intro other member
  rcases List.mem_append.mp member with early | late
  · exact one other early
  · exact two other late

theorem Only.reverse (only : Only character text) :
    Only character text.reverse :=
  fun other member => only other (List.mem_reverse.mp member)

theorem Only.dropWhile_append (only : Only character text)
    (rest : List Char) :
    (text ++ rest).dropWhile (· == character) =
      rest.dropWhile (· == character) := by
  apply List.dropWhile_append_of_pos
  intro other member
  exact beq_iff_eq.mpr (only other member)

theorem Only.dropWhile_eq_nil (only : Only character text) :
    text.dropWhile (· == character) = [] := by
  have dropped := only.dropWhile_append []
  rwa [List.append_nil] at dropped

theorem dropWhile_of_head?_ne (other : text.head? ≠ some character) :
    text.dropWhile (· == character) = text := by
  apply dropWhile_of_head?
  intro first here
  rw [beq_eq_false_iff_ne]
  rintro rfl
  exact other here

theorem head?_dropWhile_ne :
    (text.dropWhile (· == character)).head? ≠ some character := by
  have kept := List.head?_dropWhile_not (· == character) text
  intro here
  rw [here] at kept
  simp at kept

/-! ## The end of a text -/

theorem getLast?_dropEndWhile_ne :
    (dropEndWhile (· == character) text).getLast? ≠ some character := by
  rw [dropEndWhile, List.getLast?_reverse]
  exact head?_dropWhile_ne

theorem exists_dropEndWhile (character : Char) (text : List Char) :
    ∃ after, Only character after ∧
      text = dropEndWhile (· == character) text ++ after := by
  refine ⟨(text.reverse.takeWhile (· == character)).reverse,
    only_takeWhile.reverse, ?_⟩
  rw [dropEndWhile, ← List.reverse_append, List.takeWhile_append_dropWhile,
    List.reverse_reverse]

theorem dropEndWhile_append_only {core after : List Char}
    (last : core.getLast? ≠ some character) (only : Only character after) :
    dropEndWhile (· == character) (core ++ after) = core := by
  have turned : core.reverse.head? ≠ some character := by
    rwa [List.head?_reverse]
  rw [dropEndWhile, List.reverse_append, only.reverse.dropWhile_append,
    dropWhile_of_head?_ne turned, List.reverse_reverse]

end Runs

theorem exists_behind (character : Char) (text : String) :
    (stripCharEnd character text).toList.getLast? ≠ some character ∧
      ∃ after : String, Only character after.toList ∧
        text = stripCharEnd character text ++ after := by
  rw [stripCharEnd, String.toList_ofList]
  obtain ⟨after, only, spelled⟩ := exists_dropEndWhile character text.toList
  refine ⟨getLast?_dropEndWhile_ne, String.ofList after, ?_, ?_⟩
  · rwa [String.toList_ofList]
  · apply String.toList_injective
    rw [String.toList_append, String.toList_ofList, String.toList_ofList]
    exact spelled

theorem stripCharEnd_of_behind {character : Char} {core after : String}
    (last : core.toList.getLast? ≠ some character)
    (only : Only character after.toList) :
    stripCharEnd character (core ++ after) = core := by
  rw [stripCharEnd, String.toList_append, dropEndWhile_append_only last only,
    String.ofList_toList]

/-! ## Both ends -/

theorem toList_stripChar (character : Char) (text : String) :
    (stripChar character text).toList =
      dropEndWhile (· == character)
        (text.toList.dropWhile (· == character)) := by
  rw [stripChar, String.toList_ofList]

/-- Stripping takes a run of the character off each end. -/
theorem exists_around (character : Char) (text : String) :
    ∃ before after, Only character before ∧ Only character after ∧
      text.toList = before ++ (stripChar character text).toList ++ after := by
  obtain ⟨after, only, spelled⟩ := exists_dropEndWhile character
    (text.toList.dropWhile (· == character))
  refine ⟨text.toList.takeWhile (· == character), after, only_takeWhile, only,
    ?_⟩
  rw [toList_stripChar, List.append_assoc, ← spelled,
    List.takeWhile_append_dropWhile]

theorem bare_stripChar (character : Char) (text : String) :
    Bare character (stripChar character text).toList := by
  rw [toList_stripChar]
  refine ⟨?_, getLast?_dropEndWhile_ne⟩
  -- What is left of a text begins as the text does.
  obtain ⟨after, _, spelled⟩ := exists_dropEndWhile character
    (text.toList.dropWhile (· == character))
  have dropped : (text.toList.dropWhile (· == character)).head? ≠
      some character := head?_dropWhile_ne
  intro here
  apply dropped
  rw [spelled, List.head?_append, here]
  rfl

/-- What is left of a text between two runs of the stripped character. -/
theorem stripChar_of_around {character : Char} {text : String}
    {before core after : List Char} (bare : Bare character core)
    (front : Only character before) (back : Only character after)
    (spelled : text.toList = before ++ core ++ after) :
    (stripChar character text).toList = core := by
  rw [toList_stripChar, spelled, List.append_assoc, front.dropWhile_append]
  cases core with
  | nil =>
      rw [List.nil_append, back.dropWhile_eq_nil]
      rfl
  | cons first rest =>
      have kept : ((first :: rest) ++ after).dropWhile (· == character) =
          (first :: rest) ++ after := dropWhile_of_head?_ne bare.head
      rw [kept, dropEndWhile_append_only bare.last back]

theorem stripChar_padded {character : Char} {before after : String}
    (front : Only character before.toList)
    (back : Only character after.toList) (text : String) :
    stripChar character (before ++ text ++ after) =
      stripChar character text := by
  obtain ⟨first, last, early, late, spelled⟩ := exists_around character text
  apply String.toList_injective
  apply stripChar_of_around (bare_stripChar character text)
    (front.append early) (late.append back)
  simp only [String.toList_append, spelled, List.append_assoc]

theorem stripChar_eq_self_iff {character : Char} {text : String} :
    stripChar character text = text ↔ Bare character text.toList := by
  constructor
  · intro same
    rw [← same]
    exact bare_stripChar character text
  · intro bare
    apply String.toList_injective
    apply stripChar_of_around bare (only_nil character) (only_nil character)
    simp

theorem stripChar_eq_empty_iff {character : Char} {text : String} :
    stripChar character text = "" ↔ Only character text.toList := by
  constructor
  · intro empty
    obtain ⟨before, after, front, back, spelled⟩ :=
      exists_around character text
    rw [spelled, empty]
    exact (front.append (only_nil character)).append back
  · intro only
    apply String.toList_injective
    apply stripChar_of_around (bare_nil character) only (only_nil character)
    simp

end TagDoc.Text
