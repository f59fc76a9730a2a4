import Mathlib.Data.List.Forall2
import TagDoc.Json.Decoder
import TagDoc.Json.Printer

/-!
# Reading JSON text that was printed

Strings, natural numbers and objects of them are read back from their text as
they were, whatever text follows.  Objects are taken member by member: a value
`Reads` as a draft if the reader finds that draft at the beginning of every
text that continues the value's own.
-/

namespace TagDoc.Json

/-! ## Strings -/

theorem hexValue?_control :
    ∀ point < 0x20,
      hexValue? ['0', '0', hexCharacter (point / 16),
        hexCharacter (point % 16)] = some point := by
  decide

theorem pushUnit_of_control {spelling : Spelling} {character : Char}
    (settled : spelling.high = none) (control : character.toNat < 0x20) :
    spelling.pushUnit character.toNat = spelling.push character := by
  have notHigh : ¬ (0xD800 ≤ character.toNat ∧ character.toNat ≤ 0xDBFF) := by
    omega
  have notLow : ¬ (0xDC00 ≤ character.toNat ∧ character.toNat ≤ 0xDFFF) := by
    omega
  simp [Spelling.pushUnit, settled, notHigh, notLow]

/-- A character is read back from the way it stands inside quotes. -/
theorem scanString_escape {spelling : Spelling} (character : Char)
    (rest : List Char) (settled : spelling.high = none) :
    scanString spelling (escape character ++ rest) =
      scanString (spelling.push character) rest := by
  unfold escape
  split
  case h_8 notQuote notBackslash _ _ _ _ _ =>
    split
    · next control =>
        have unit := hexValue?_control character.toNat control
        simp only [List.cons_append, List.nil_append, scanString, unit]
        rw [pushUnit_of_control settled control]
    · next printable =>
        rw [List.singleton_append, scanString]
        · rw [if_neg printable]
        all_goals simp_all
  all_goals rfl

theorem scanString_escapes {spelling : Spelling} (text rest : List Char)
    (settled : spelling.high = none) (sound : spelling.sound = true) :
    scanString spelling (text.flatMap escape ++ '"' :: rest) =
      .closed (some (String.ofList (spelling.text.reverse ++ text))) rest := by
  induction text generalizing spelling with
  | nil =>
      rw [List.flatMap_nil, List.nil_append, scanString, Spelling.text?]
      simp [settled, sound]
  | cons character others ih =>
      rw [List.flatMap_cons, List.append_assoc,
        scanString_escape character _ settled, ih rfl (by simp [Spelling.push,
          settled, sound])]
      simp [Spelling.push]

/-! ## Natural numbers -/

/-- The digits of a natural number as a numeral. -/
def Numeral.ofNat (value : Nat) : Numeral :=
  ⟨false, (Nat.toDigits 10 value).map (·.toNat - 48), none, none⟩

/-- What follows a number and is no part of it. -/
def EndsNumber : List Char → Prop
  | [] => True
  | character :: _ =>
      Text.isDigit character = false ∧ character ≠ '.' ∧ character ≠ 'e' ∧
        character ≠ 'E'

theorem isDigit_of_mem_toDigits {value : Nat} {character : Char}
    (member : character ∈ Nat.toDigits 10 value) :
    Text.isDigit character = true := by
  have digit := Nat.isDigit_of_mem_toDigits (by decide) (by decide) member
  simpa [Char.isDigit, Text.isDigit, Char.le_def] using digit

theorem ofDigits_ofNat (value : Nat) :
    ofDigits (Numeral.ofNat value).whole = value := by
  have whole := Nat.ofDigitChars_ten_toDigits (n := value)
  rw [Nat.ofDigitChars_eq_foldl] at whole
  rw [ofDigits, Numeral.ofNat, List.foldl_map]
  simpa [Nat.mul_comm] using whole

/-- No printed number but zero begins with a zero. -/
theorem toDigits_head {value : Nat} (positive : 0 < value) :
    ∃ first rest, Nat.toDigits 10 value = first :: rest ∧
      first.toNat - 48 ≠ 0 := by
  induction value using Nat.strongRecOn with
  | ind value ih =>
      by_cases small : value < 10
      · refine ⟨value.digitChar, [], Nat.toDigits_of_lt_base small, ?_⟩
        rw [Nat.toNat_digitChar_sub_48_of_lt_ten small]
        exact Nat.pos_iff_ne_zero.mp positive
      · obtain ⟨first, rest, spelled, nonzero⟩ :=
          ih (value / 10) (by omega) (by omega)
        refine ⟨first, rest ++ [(value % 10).digitChar], ?_, nonzero⟩
        rw [Nat.toDigits_of_base_le (by decide) (Nat.not_lt.mp small), spelled,
          List.cons_append]

theorem le_foldl_digits (significand : Nat) (digits : List Nat) :
    significand ≤
      digits.foldl (fun value digit => value * 10 + digit) significand := by
  induction digits generalizing significand with
  | nil => exact Nat.le_refl _
  | cons digit rest ih =>
      have step := ih (significand * 10 + digit)
      simp only [List.foldl_cons]
      omega

theorem gatherWhole_eq {significand : Nat} (digits : List Nat)
    (small : significand ≤ Numeral.limit) :
    let whole :=
      digits.foldl (fun value digit => value * 10 + digit) significand
    (whole ≤ Numeral.limit →
      Numeral.gatherWhole significand digits = (whole, 0)) ∧
    (Numeral.limit < whole →
      (Numeral.gatherWhole significand digits).2 ≠ 0) := by
  induction digits generalizing significand with
  | nil => exact ⟨fun _ => rfl, fun large => (Nat.not_lt.mpr small large).elim⟩
  | cons digit rest ih =>
      dsimp only
      rw [Numeral.gatherWhole, List.foldl_cons]
      have rises := le_foldl_digits (significand * 10 + digit) rest
      by_cases larger : Numeral.limit < significand * 10 + digit
      · rw [if_pos larger]
        exact ⟨fun fits => by omega, fun _ => Nat.succ_ne_zero _⟩
      · rw [if_neg larger]
        exact ih (Nat.not_lt.mp larger)

theorem value?_ofNat_of_le {value : Nat} (fits : value ≤ Numeral.limit) :
    (Numeral.ofNat value).value? = some (.integer value) := by
  have whole := ofDigits_ofNat value
  have gathered := (gatherWhole_eq (Numeral.ofNat value).whole
    (Nat.zero_le Numeral.limit)).1 (by rw [← ofDigits, whole]; exact fits)
  rw [← ofDigits, whole] at gathered
  rw [Numeral.value?, gathered]
  rfl

/-- A number beyond 64 bits is not read as an integer. -/
theorem value?_ofNat_of_lt {value : Nat} (large : Numeral.limit < value)
    (integer : Int) :
    (Numeral.ofNat value).value? ≠ some (.integer integer) := by
  have whole := ofDigits_ofNat value
  have dropped := (gatherWhole_eq (Numeral.ofNat value).whole
    (Nat.zero_le Numeral.limit)).2 (by rw [← ofDigits, whole]; exact large)
  rw [Numeral.value?]
  cases gathered : Numeral.gatherWhole 0 (Numeral.ofNat value).whole with
  | mk significand rest =>
      rw [gathered] at dropped
      have beyond : ∀ number,
          Numeral.double? false significand rest = some number →
            number ≠ .integer integer := by
        intro number made same
        subst same
        simp [Numeral.double?, Option.bind_eq_some_iff] at made
      intro read
      simp [Numeral.ofNat, dropped] at read
      exact beyond _ read rfl

theorem spanDigits_toDigits (value : Nat) {rest : List Char}
    (ends : EndsNumber rest) :
    spanDigits (Nat.toDigits 10 value ++ rest) =
      ((Numeral.ofNat value).whole, rest) := by
  have digits : ∀ character ∈ Nat.toDigits 10 value,
      Text.isDigit character = true := fun _ => isDigit_of_mem_toDigits
  have stops : rest.takeWhile Text.isDigit = [] ∧
      rest.dropWhile Text.isDigit = rest := by
    cases rest with
    | nil => exact ⟨rfl, rfl⟩
    | cons character others => simp [ends.1]
  rw [spanDigits, List.takeWhile_append_of_pos digits,
    List.dropWhile_append_of_pos digits, stops.1, stops.2, List.append_nil]
  rfl

theorem whole_ofNat (value : Nat) :
    ∃ first rest, (Numeral.ofNat value).whole = first :: rest ∧
      (first = 0 → rest = []) := by
  by_cases positive : 0 < value
  · obtain ⟨first, rest, spelled, nonzero⟩ := toDigits_head positive
    refine ⟨first.toNat - 48, rest.map (·.toNat - 48), ?_, ?_⟩
    · rw [Numeral.ofNat, spelled, List.map_cons]
    · exact fun zero => (nonzero zero).elim
  · obtain rfl : value = 0 := by omega
    exact ⟨0, [], rfl, fun _ => rfl⟩

theorem scanDigits_toDigits (value : Nat) {rest : List Char}
    (ends : EndsNumber rest) :
    scanDigits false (Nat.toDigits 10 value ++ rest) =
      (.number (Numeral.ofNat value).value?, rest) := by
  have plain : scanFraction false (Numeral.ofNat value).whole rest =
      (.number (Numeral.ofNat value).value?, rest) := by
    cases rest with
    | nil => rfl
    | cons character others =>
        obtain ⟨_, notPoint, notSmall, notLarge⟩ := ends
        have noExponent (numeral : Numeral) :
            scanExponent numeral (character :: others) =
              (.number numeral.value?, character :: others) := by
          unfold scanExponent
          simp [notSmall, notLarge]
        rw [scanFraction, noExponent]
        · rfl
        · simpa using notPoint
  obtain ⟨first, others, spelled, lone⟩ := whole_ofNat value
  rw [scanDigits, spanDigits_toDigits value ends]
  rw [spelled] at plain ⊢
  split
  · next none => cases none
  · next leading =>
      cases leading
      cases lone rfl
  · next digits _ _ _ same =>
      cases same
      exact plain

/-! ## Values -/

/-- The reader finds a draft at the beginning of every text that continues the
printed value. -/
def Reads (level : Nat) (value : Json) (draft : Draft) : Prop :=
  ∀ fuel rest, (value.pretty level).toList.length ≤ fuel → EndsNumber rest →
    scanValue fuel level ((value.pretty level).toList ++ rest) = (draft, rest)

theorem toList_quote (text : String) :
    (quote text).toList = '"' :: (text.toList.flatMap escape ++ ['"']) := by
  simp [quote]

theorem scanString_quoted (text : String) (rest : List Char) :
    scanString .empty (text.toList.flatMap escape ++ '"' :: rest) =
      .closed (some text) rest := by
  rw [scanString_escapes text.toList rest rfl rfl]
  simp [Spelling.empty]

theorem reads_string (level : Nat) (text : String) :
    Reads level (.string text) (.string (some text)) := by
  intro fuel rest enough _
  rw [pretty, toList_quote] at enough ⊢
  match fuel with
  | 0 => simp at enough
  | fuel + 1 =>
      have spelled : '"' :: (text.toList.flatMap escape ++ ['"']) ++ rest =
          '"' :: (text.toList.flatMap escape ++ '"' :: rest) := by
        simp
      have noGap : isGap '"' = false := by decide
      rw [spelled, scanValue, List.dropWhile_cons, noGap,
        if_neg Bool.false_ne_true]
      simp only [scanString_quoted]

theorem scanValue_digit {fuel level : Nat} {character : Char}
    {rest : List Char} (digit : Text.isDigit character = true) :
    scanValue (fuel + 1) level (character :: rest) =
      scanDigits false (character :: rest) := by
  have noGap : isGap character = false := by
    rw [Bool.eq_false_iff]
    intro gap
    simp only [isGap, Bool.or_eq_true, beq_iff_eq, or_assoc] at gap
    rcases gap with rfl | rfl | rfl | rfl <;> revert digit <;> decide
  rw [scanValue, List.dropWhile_cons, noGap, if_neg Bool.false_ne_true]
  split
  · next none => cases none
  case h_9 same =>
    cases same
    exact if_pos digit
  all_goals
    next same =>
      cases same
      exact absurd digit (by decide)

theorem reads_natural (level value : Nat) :
    Reads level (.number (.integer value))
      (.number (Numeral.ofNat value).value?) := by
  intro fuel rest enough ends
  have spelled : (pretty level (.number (.integer value))).toList =
      Nat.toDigits 10 value := Nat.toList_repr
  obtain ⟨first, others, digits⟩ :=
    List.exists_cons_of_ne_nil (Nat.toDigits_ne_nil (n := value) (b := 10))
  have digit : Text.isDigit first = true :=
    isDigit_of_mem_toDigits (by rw [digits]; exact List.mem_cons_self)
  rw [spelled] at enough ⊢
  match fuel with
  | 0 => simp [digits] at enough
  | fuel + 1 =>
      rw [← scanDigits_toDigits value ends, digits]
      exact scanValue_digit digit

/-! ## Objects -/

theorem prettyMembers_eq_map (level : Nat) (members : List (String × Json)) :
    prettyMembers level members =
      members.map fun (name, value) =>
        quote name ++ ": " ++ value.pretty level := by
  induction members with
  | nil => rfl
  | cons member rest ih =>
      obtain ⟨name, value⟩ := member
      rw [prettyMembers, ih, List.map_cons]

/-- The characters of a member. -/
def memberText (level : Nat) (member : String × Json) : List Char :=
  (quote member.1).toList ++ ':' :: ' ' :: (member.2.pretty level).toList

/-- The characters of further members and the end of an object. -/
def tailText (level : Nat) (members : List (String × Json)) : List Char :=
  (members.flatMap fun member =>
    ',' :: (newline (level + 1)).toList ++ memberText (level + 1) member) ++
      (newline level).toList ++ ['}']

theorem toList_pretty_object (level : Nat) (member : String × Json)
    (rest : List (String × Json)) :
    (pretty level (.object (member :: rest))).toList =
      '{' :: (newline (level + 1)).toList ++ memberText (level + 1) member ++
        tailText level rest := by
  have joined (first : String) (others : List String) :
      (String.intercalate ("," ++ newline (level + 1))
        (first :: others)).toList =
        first.toList ++ others.flatMap fun other =>
          ',' :: (newline (level + 1)).toList ++ other.toList := by
    induction others generalizing first with
    | nil => simp
    | cons second others ih =>
        rw [String.intercalate_cons_cons, String.toList_append, ih]
        simp
  rw [pretty, prettyMembers_eq_map, List.map_cons, layout,
    if_neg (by simp)]
  simp [joined, memberText, tailText, List.flatMap_map]

theorem dropWhile_newline (level : Nat) (text : List Char) :
    ((newline level).toList ++ text).dropWhile isGap =
      text.dropWhile isGap := by
  refine List.dropWhile_append_of_pos ?_
  intro character member
  simp only [newline, String.toList_append, String.toList_ofList,
    List.mem_append, List.mem_replicate] at member
  rcases member with lineEnd | ⟨_, rfl⟩
  · have same : character = '\n' := by simpa using lineEnd
    subst same
    rfl
  · rfl

theorem scanValue_blank (fuel level : Nat) (text : List Char) :
    scanValue fuel level (' ' :: text) = scanValue fuel level text := by
  have gap : isGap ' ' = true := rfl
  cases fuel with
  | zero => rfl
  | succ fuel => rw [scanValue, scanValue, List.dropWhile_cons_of_pos gap]

theorem endsNumber_tailText (level : Nat) (members : List (String × Json))
    (rest : List Char) : EndsNumber (tailText level members ++ rest) := by
  cases members with
  | nil => simp [tailText, newline, EndsNumber]; decide
  | cons member others => simp [tailText, EndsNumber]; decide

theorem scanMembers_quote {fuel level : Nat} {first : Bool}
    {text after rest : List Char} {name : Option String}
    (opens : text.dropWhile isGap = '"' :: after)
    (named : scanString .empty after = .closed name (':' :: rest)) :
    scanMembers (fuel + 1) level first
        ((if first then [] else [',']) ++ text) =
      let (member, after) := scanValue fuel (level + 1) rest
      let (members, ending, after) := scanMembers fuel level false after
      ((name, member) :: members, ending, after) := by
  have noGap : isGap '"' = false := rfl
  have colon : isGap ':' = false := rfl
  have comma : isGap ',' = false := rfl
  cases first with
  | true =>
      rw [scanMembers, if_pos rfl, List.nil_append, opens]
      split
      · next none => cases none
      · next same => simp at same
      · next same =>
          cases same
          simp only [Bool.true_or, if_true, List.dropWhile_cons, noGap,
            Bool.false_eq_true, if_false, named, colon]
  | false =>
      rw [scanMembers, if_neg Bool.false_ne_true, List.singleton_append,
        List.dropWhile_cons, comma, if_neg Bool.false_ne_true]
      split
      · next none => cases none
      · next same => simp at same
      · next same =>
          cases same
          simp only [Bool.false_or, beq_self_eq_true, if_true, opens,
            Bool.false_eq_true, if_false, named, List.dropWhile_cons, colon]

theorem scanMembers_close {fuel level : Nat} {first : Bool}
    {text rest : List Char} (closes : text.dropWhile isGap = '}' :: rest) :
    scanMembers (fuel + 1) level first text = ([], .closed, rest) := by
  rw [scanMembers, closes]
  rfl

/-- Drafts that are found for members, under their names. -/
def ReadsMembers (level : Nat) : List (String × Json) →
    List (Option String × Draft) → Prop :=
  List.Forall₂ fun member draft =>
    draft.1 = some member.1 ∧ Reads level member.2 draft.2

theorem scanMembers_member {fuel level : Nat} {member : String × Json}
    {draft : Draft} (first : Bool) {rest : List Char}
    (reads : Reads (level + 1) member.2 draft)
    (enough : (member.2.pretty (level + 1)).toList.length ≤ fuel)
    (ends : EndsNumber rest) :
    scanMembers (fuel + 1) level first
        ((if first then [] else [',']) ++ ((newline (level + 1)).toList ++
          memberText (level + 1) member ++ rest)) =
      let (members, ending, after) := scanMembers fuel level false rest
      ((some member.1, draft) :: members, ending, after) := by
  have noGap : isGap '"' = false := rfl
  have opens : ((newline (level + 1)).toList ++ memberText (level + 1) member ++
        rest).dropWhile isGap =
      '"' :: (member.1.toList.flatMap escape ++ '"' :: ':' :: ' ' ::
        ((member.2.pretty (level + 1)).toList ++ rest)) := by
    rw [List.append_assoc, dropWhile_newline, memberText, toList_quote]
    simp [noGap]
  rw [scanMembers_quote opens (scanString_quoted _ _), scanValue_blank,
    reads fuel rest enough ends]

theorem scanMembers_tail {level : Nat} {members : List (String × Json)}
    {drafts : List (Option String × Draft)}
    (reads : ReadsMembers (level + 1) members drafts) {fuel : Nat}
    (rest : List Char)
    (enough : (tailText level members).length ≤ fuel) :
    scanMembers fuel level false (tailText level members ++ rest) =
      (drafts, .closed, rest) := by
  induction reads generalizing fuel with
  | nil =>
      match fuel with
      | 0 => simp [tailText] at enough
      | fuel + 1 =>
          have noGap : isGap '}' = false := rfl
          apply scanMembers_close
          rw [tailText, List.flatMap_nil, List.nil_append, List.append_assoc,
            dropWhile_newline]
          simp [noGap]
  | @cons member draft members drafts first others ih =>
      obtain ⟨name, found⟩ := draft
      obtain ⟨rfl, value⟩ := first
      have spelled : tailText level (member :: members) ++ rest =
          [','] ++ ((newline (level + 1)).toList ++
            memberText (level + 1) member ++
              (tailText level members ++ rest)) := by
        simp [tailText]
      have longer : (tailText level (member :: members)).length =
          1 + (newline (level + 1)).toList.length +
            (memberText (level + 1) member).length +
            (tailText level members).length := by
        simp [tailText]
        omega
      match fuel with
      | 0 => simp [tailText] at enough
      | fuel + 1 =>
          have inside : (member.2.pretty (level + 1)).toList.length ≤ fuel := by
            rw [longer, memberText] at enough
            simp at enough
            omega
          have after : (tailText level members).length ≤ fuel := by
            omega
          have step := scanMembers_member false value inside
            (endsNumber_tailText level members rest)
          rw [if_neg Bool.false_ne_true] at step
          rw [spelled, step, ih after]

theorem scanValue_object (fuel level : Nat) (text : List Char) :
    scanValue (fuel + 1) level ('{' :: text) =
      let (members, ending, rest) := scanMembers fuel level true text
      (.object level members ending, rest) := by
  have noGap : isGap '{' = false := rfl
  rw [scanValue, List.dropWhile_cons, noGap, if_neg Bool.false_ne_true]
  rfl

/-- An object of readable members is read back member by member. -/
theorem reads_object {level : Nat} {members : List (String × Json)}
    {drafts : List (Option String × Draft)}
    (reads : ReadsMembers (level + 1) members drafts) :
    Reads level (.object members) (.object level drafts .closed) := by
  intro fuel rest enough _
  cases reads with
  | nil =>
      have spelled : (pretty level (.object [])).toList = ['{', '}'] := by
        simp [pretty, prettyMembers, layout]
      rw [spelled] at enough ⊢
      match fuel with
      | 0 | 1 => simp at enough
      | fuel + 2 =>
          have noGap : isGap '}' = false := rfl
          rw [List.cons_append, scanValue_object, scanMembers_close]
          simp [noGap]
  | @cons member draft members drafts first others =>
      obtain ⟨name, found⟩ := draft
      obtain ⟨rfl, value⟩ := first
      rw [toList_pretty_object] at enough ⊢
      have longer : ('{' :: (newline (level + 1)).toList ++
          memberText (level + 1) member ++ tailText level members).length =
          1 + (newline (level + 1)).toList.length +
            (memberText (level + 1) member).length +
            (tailText level members).length := by
        simp
        omega
      have quoted : (memberText (level + 1) member).length =
          (quote member.1).toList.length + 2 +
            (member.2.pretty (level + 1)).toList.length := by
        simp [memberText]
        omega
      match fuel with
      | 0 | 1 => omega
      | fuel + 2 =>
          have inside :
              (member.2.pretty (level + 1)).toList.length ≤ fuel := by
            omega
          have step := scanMembers_member true value inside
            (endsNumber_tailText level members rest)
          rw [if_pos rfl, List.nil_append] at step
          have spelled : '{' :: (newline (level + 1)).toList ++
              memberText (level + 1) member ++ tailText level members ++ rest =
              '{' :: ((newline (level + 1)).toList ++
                memberText (level + 1) member ++
                  (tailText level members ++ rest)) := by
            simp
          rw [spelled, scanValue_object, step,
            scanMembers_tail others rest (by omega)]

end TagDoc.Json
