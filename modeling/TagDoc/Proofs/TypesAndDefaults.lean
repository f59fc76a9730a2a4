import Mathlib.Data.List.Infix
import TagDoc.Proofs.TagSections

/-!
# Types and defaults on tag lines

The tag line of a parameter or a return may have a type in braces before the
name, and the name may stand in brackets with a default.  A type reaches to its
first closing brace and a name to the first white space.  So a type with braces
inside and a default with white space inside are taken apart, and exactly they
are.
-/

namespace TagDoc.CommentBlock

open Text (AllSpace StartsSolid EndsSolid)

/-! ## Tag lines -/

/-- A type in braces and a space. -/
def typeMark (type : List Char) : List Char :=
  '{' :: type ++ ['}', ' ']

/-- A name in brackets with a default. -/
def defaulted (name default : List Char) : List Char :=
  '[' :: name ++ '=' :: default ++ [']']

/-- A word, a space and a text. -/
def described (word text : List Char) : List Char :=
  word ++ ' ' :: text

/-- A comment with a single tag line. -/
def tagComment (kind : TagKind) (rest : List Char) : List Char :=
  around [] (' ' :: ('@' :: kind.name.toList ++ ' ' :: rest) ++ [' ']) []

/-- A text within one line of a comment. -/
structure OneLine (text : List Char) : Prop where
  plain : '\n' ∉ text
  unclosed : ¬ ['*', '/'] <:+: text

instance (text : List Char) : Decidable (OneLine text) :=
  decidable_of_iff ('\n' ∉ text ∧ ¬ ['*', '/'] <:+: text)
    ⟨fun parts => ⟨parts.1, parts.2⟩, fun line => ⟨line.1, line.2⟩⟩

/-- A name that needs no marks to be told from a type and a default. -/
structure BareName (name : List Char) : Prop where
  nonempty : name ≠ []
  solid : ∀ character ∈ name, Text.isSpace character = false
  unmarked : ∀ mark ∈ ['[', ']', '{', '}', '='], mark ∉ name
  unclosed : ¬ ['*', '/'] <:+: name

instance (name : List Char) : Decidable (BareName name) :=
  decidable_of_iff
    (name ≠ [] ∧ name.all (!Text.isSpace ·) = true ∧
      ['[', ']', '{', '}', '='].all (!name.contains ·) = true ∧
      ¬ ['*', '/'] <:+: name)
    ⟨fun ⟨nonempty, solid, unmarked, unclosed⟩ =>
        ⟨nonempty, by simpa using solid, by simpa using unmarked, unclosed⟩,
      fun ⟨nonempty, solid, unmarked, unclosed⟩ =>
        ⟨nonempty, by simpa using solid, by simpa using unmarked, unclosed⟩⟩

/-- A text in which the braces pair up. -/
inductive Balanced : List Char → Prop where
  | nil : Balanced []
  | keep {character : Char} {rest : List Char} :
      character ≠ '{' → character ≠ '}' → Balanced rest →
      Balanced (character :: rest)
  | nest {inner rest : List Char} :
      Balanced inner → Balanced rest →
      Balanced ('{' :: inner ++ '}' :: rest)

theorem Balanced.closing_mem_iff {text : List Char} (balanced : Balanced text) :
    '}' ∈ text ↔ '{' ∈ text := by
  induction balanced with
  | nil => simp
  | keep opening closing _ ih =>
      simp only [List.mem_cons, opening.symm, closing.symm, false_or, ih]
  | nest => simp

theorem balanced_of_plain {text : List Char} (opening : '{' ∉ text)
    (closing : '}' ∉ text) : Balanced text := by
  induction text with
  | nil => exact .nil
  | cons character rest ih =>
      obtain ⟨first, later⟩ := List.ne_and_not_mem_of_not_mem_cons opening
      obtain ⟨second, behind⟩ := List.ne_and_not_mem_of_not_mem_cons closing
      exact .keep first.symm second.symm (ih later behind)

theorem BareName.plainName {name : List Char} (bare : BareName name) :
    Tag.PlainName name where
  nonempty := bare.nonempty
  solid := bare.solid
  braceless first :=
    bare.unmarked '{' (by decide) (List.mem_of_mem_head? first)
  unbracketed := by
    rintro ⟨inner, rfl⟩
    exact bare.unmarked '[' (by decide) List.mem_cons_self

theorem BareName.oneLine {name : List Char} (bare : BareName name) :
    OneLine name where
  plain member := absurd (bare.solid '\n' member) (by decide)
  unclosed := bare.unclosed

/-- Two parts of a line make a line around any mark that is neither a line feed
nor part of a closing. -/
theorem OneLine.across {first second : List Char} (left : OneLine first)
    (right : OneLine second) {mark : Char} (feed : mark ≠ '\n')
    (star : mark ≠ '*') (slash : mark ≠ '/') :
    OneLine (first ++ mark :: second) where
  plain member := by
    rcases List.mem_append.mp member with before | behind
    · exact left.plain before
    · exact (List.mem_cons.mp behind).elim (fun same => feed same.symm)
        right.plain
  unclosed := by
    have before := Text.not_pair_infix_iff.mp left.unclosed
    have behind := Text.not_pair_infix_iff.mp right.unclosed
    exact Text.not_pair_infix_iff.mpr
      (ClosesNone.across before behind star slash)

theorem OneLine.nil : OneLine [] where
  plain := List.not_mem_nil
  unclosed := by simp

theorem OneLine.described {word text : List Char} (first : OneLine word)
    (second : OneLine text) : OneLine (described word text) :=
  first.across second (by decide) (by decide) (by decide)

theorem OneLine.typed {type rest : List Char} (first : OneLine type)
    (second : OneLine rest) : OneLine (typeMark type ++ rest) := by
  have spaced : OneLine (' ' :: rest) :=
    OneLine.nil.across second (by decide) (by decide) (by decide)
  have closed : OneLine (type ++ '}' :: ' ' :: rest) :=
    first.across spaced (by decide) (by decide) (by decide)
  have opened : OneLine ('{' :: (type ++ '}' :: ' ' :: rest)) :=
    OneLine.nil.across closed (by decide) (by decide) (by decide)
  simpa [typeMark] using opened

theorem OneLine.defaulted {name default : List Char} (first : OneLine name)
    (second : OneLine default) : OneLine (defaulted name default) := by
  have closed : OneLine (default ++ [']']) :=
    second.across OneLine.nil (by decide) (by decide) (by decide)
  have joined : OneLine (name ++ '=' :: (default ++ [']'])) :=
    first.across closed (by decide) (by decide) (by decide)
  have opened : OneLine ('[' :: (name ++ '=' :: (default ++ [']']))) :=
    OneLine.nil.across joined (by decide) (by decide) (by decide)
  simpa [CommentBlock.defaulted] using opened

/-- A text that can begin what stands behind the kind of a tag and, where a type
may stand, is none. -/
structure FirstWord (word : List Char) : Prop where
  line : OneLine word
  nonempty : word ≠ []
  starts : StartsSolid word
  ends : EndsSolid word
  braceless : word.head? ≠ some '{'

theorem BareName.firstWord {name : List Char} (bare : BareName name) :
    FirstWord name where
  line := bare.oneLine
  nonempty := bare.nonempty
  starts character first := bare.solid character (List.mem_of_mem_head? first)
  ends character last := bare.solid character (List.mem_of_mem_getLast? last)
  braceless := bare.plainName.braceless

theorem firstWord_defaulted {name default : List Char} (bare : BareName name)
    (line : OneLine default) : FirstWord (defaulted name default) where
  line := bare.oneLine.defaulted line
  nonempty := List.cons_ne_nil _ _
  starts character first := by
    obtain rfl : '[' = character := Option.some.inj first
    rfl
  ends character last := by
    rw [defaulted, List.getLast?_concat] at last
    obtain rfl : ']' = character := Option.some.inj last
    rfl
  braceless first := absurd (Option.some.inj first) (by decide)

/-! ## A comment with one tag line -/

theorem spelledKind_of_named {kind : TagKind} (named : kind.layout = .named) :
    Tag.SpelledKind kind := by
  cases kind with
  | param =>
      exact ⟨rfl, 'p', "aram".toList, by decide +kernel, by decide,
        List.all_eq_true.mp (by decide +kernel)⟩
  | returns =>
      exact ⟨rfl, 'r', "eturns".toList, by decide +kernel, by decide,
        List.all_eq_true.mp (by decide +kernel)⟩
  | _ => cases named

theorem oneLine_kind {kind : TagKind} (named : kind.layout = .named) :
    OneLine (' ' :: '@' :: kind.name.toList) := by
  cases kind with
  | param => decide +kernel
  | returns => decide +kernel
  | _ => cases named

/-- The tag of a tag line without further lines, from what stands behind its
kind. -/
def lineTag (kind : TagKind) (rest : List Char) : Tag :=
  closeTag (openTag.named rest kind) []

theorem ofSource_tagComment {kind : TagKind} (named : kind.layout = .named)
    {core blank : List Char} (line : OneLine (core ++ blank))
    (starts : StartsSolid core) (ends : EndsSolid core) (nonempty : core ≠ [])
    (spaces : AllSpace blank) :
    ofSource (String.ofList (tagComment kind (core ++ blank))) =
      [⟨"", [lineTag kind core]⟩] := by
  have body : OneLine
      (' ' :: ('@' :: kind.name.toList ++ ' ' :: (core ++ blank)) ++ [' ']) :=
    ((oneLine_kind named).described line).across OneLine.nil
      (by decide) (by decide) (by decide)
  have behind : spaced core = ' ' :: core := by
    rw [spaced, if_neg (by simpa using nonempty)]
  have unblank : ∀ character ∈ core.head?, Text.isBlank character = false :=
    fun character first => isBlank_of_solid (starts character first)
  have content : contentLine
      (' ' :: ('@' :: kind.name.toList ++ ' ' :: (core ++ blank)) ++ [' ']) =
        '@' :: kind.name.toList ++ spaced core := by
    have solid := ends.behind nonempty ('@' :: kind.name.toList ++ [' '])
    have indented := contentLine_indented
      (List.forall_mem_singleton.mpr rfl : Text.AllBlank [' '])
      ('@' :: kind.name.toList ++ ' ' :: (core ++ blank))
    have kept : dropGutter
        ('@' :: kind.name.toList ++ ' ' :: (core ++ blank)) =
          '@' :: kind.name.toList ++ [' '] ++ core ++ blank := by
      simp [dropGutter, dropOne, Text.isBlank]
    rw [contentLine_append_space Text.allSpace_blank]
    refine indented.trans ?_
    rw [contentLine, kept, Text.trimEnd_append solid spaces, behind]
    simp
  have opened : openTag? ('@' :: kind.name.toList ++ spaced core) =
      some (openTag.named core kind) := by
    have kindTag := openTag_of_named (spelledKind_of_named named).named core
    rw [named] at kindTag
    rw [openTag?, tagLine?_print (spelledKind_of_named named) unblank]
    exact congrArg some kindTag
  have nothing : ofSource (String.ofList []) = [] := rfl
  rw [tagComment, ofSource_around closed_nil body.unclosed, nothing,
    ofBody_eq_ofLines, fullLines_plain body.plain, content, ofLines,
    splitTags_opened opened]
  rfl

theorem FirstWord.endsSolid {word text : List Char} (first : FirstWord word)
    (ends : EndsSolid text) : EndsSolid (word ++ spaced text) := by
  cases text with
  | nil => simpa [spaced] using first.ends
  | cons character rest =>
      have last := ends.behind (List.cons_ne_nil _ _) (word ++ [' '])
      simpa [spaced] using last

theorem FirstWord.braceless_append {word : List Char} (first : FirstWord word)
    (rest : List Char) : (word ++ rest).head? ≠ some '{' := by
  rw [List.head?_append_of_ne_nil _ first.nonempty]
  exact first.braceless

theorem FirstWord.startsSolid {word : List Char} (first : FirstWord word)
    (rest : List Char) : StartsSolid (word ++ rest) := by
  rw [StartsSolid, List.head?_append_of_ne_nil _ first.nonempty]
  exact first.starts

theorem described_eq (word text : List Char) :
    ∃ blank, AllSpace blank ∧
      described word text = word ++ spaced text ++ blank := by
  cases text with
  | nil => exact ⟨[' '], Text.allSpace_blank, by simp [described, spaced]⟩
  | cons character rest =>
      exact ⟨[], List.forall_mem_nil _, by simp [described, spaced]⟩

theorem ofSource_described {kind : TagKind} (named : kind.layout = .named)
    {mark word text : List Char} (line : OneLine (mark ++ described word text))
    (starts : StartsSolid (mark ++ (word ++ spaced text)))
    (first : FirstWord word) (ends : EndsSolid text) :
    ofSource (String.ofList (tagComment kind (mark ++ described word text))) =
      [⟨"", [lineTag kind (mark ++ (word ++ spaced text))]⟩] := by
  obtain ⟨blank, spaces, spelled⟩ := described_eq word text
  have filled : word ++ spaced text ≠ [] := by
    simp [first.nonempty]
  have solid := (first.endsSolid ends).behind filled mark
  rw [spelled, ← List.append_assoc mark] at line ⊢
  exact ofSource_tagComment named line starts solid (by simp [filled]) spaces

/-- A comment with the tag line is read as one tag of the given name and
text. -/
def ReadsAs (kind : TagKind) (rest name text : List Char) : Prop :=
  ofSource (String.ofList (tagComment kind rest)) =
    [⟨"", [⟨kind, String.ofList name, String.ofList text⟩]⟩]

instance (kind : TagKind) (rest name text : List Char) :
    Decidable (ReadsAs kind rest name text) :=
  inferInstanceAs (Decidable (_ = _))

theorem readsAs_iff {kind : TagKind} {rest core name text : List Char}
    (read : ofSource (String.ofList (tagComment kind rest)) =
      [⟨"", [lineTag kind core]⟩]) :
    ReadsAs kind rest name text ↔
      lineTag kind core = ⟨kind, String.ofList name, String.ofList text⟩ := by
  rw [ReadsAs, read]
  simp

/-! ## Types -/

theorem dropType_braced {type : List Char} (flat : '}' ∉ type)
    (rest : List Char) :
    dropType ('{' :: (type ++ '}' :: rest)) = rest.dropWhile Text.isBlank := by
  have absent : ∀ character ∈ type, (character == '}') = false := by
    intro character member
    exact beq_false_of_ne fun same => flat (same ▸ member)
  rw [dropType, splitAtFirst_append absent (beq_self_eq_true '}') rest]

theorem dropType_typeMark {type : List Char} (flat : '}' ∉ type)
    {rest : List Char} (starts : StartsSolid rest) :
    dropType (typeMark type ++ rest) = rest := by
  have behind : rest.dropWhile Text.isBlank = rest :=
    Text.dropWhile_of_head? fun character first =>
      isBlank_of_solid (starts character first)
  have spelled : typeMark type ++ rest =
      '{' :: (type ++ '}' :: ' ' :: rest) := by
    simp [typeMark]
  rw [spelled, dropType_braced flat]
  exact behind

theorem dropType_nested {type : List Char} (nested : '}' ∈ type)
    (rest : List Char) :
    ∃ before, dropType (typeMark type ++ rest) = before ++ ' ' :: rest := by
  obtain ⟨first, later, rfl, flat⟩ := List.eq_append_cons_of_mem nested
  have spelled : typeMark (first ++ '}' :: later) ++ rest =
      '{' :: (first ++ '}' :: (later ++ ['}'] ++ ' ' :: rest)) := by
    simp [typeMark]
  have brace : Text.isBlank '}' = false := rfl
  refine ⟨later.dropWhile Text.isBlank ++ ['}'], ?_⟩
  rw [spelled, dropType_braced flat]
  simpa using Text.dropWhile_append_kept brace later (' ' :: rest)

/-- What stands solidly behind a space is not taken from a text when its first
word is split off. -/
theorem suffix_splitWord {character : Char}
    (solid : Text.isSpace character = false) (before rest : List Char) :
    character :: rest <:+
      (splitWord (before ++ ' ' :: character :: rest)).2 := by
  have kept (text : List Char) :
      character :: rest <:+
        Text.trimStart (text ++ ' ' :: character :: rest) := by
    have trimmed := Text.dropWhile_append_kept solid (text ++ [' ']) rest
    rw [List.append_assoc, List.singleton_append] at trimmed
    rw [Text.trimStart, trimmed]
    exact List.suffix_append _ _
  induction before with
  | nil =>
      have split : (splitWord ([] ++ ' ' :: character :: rest)).2 =
          Text.trimStart (character :: rest) := rfl
      have behind : Text.trimStart (character :: rest) = character :: rest :=
        List.dropWhile_cons_of_neg (by simp [solid])
      exact ⟨[], (split.trans behind).symm⟩
  | cons first before ih =>
      by_cases space : Text.isSpace first = true
      · have split :
            (splitWord (first :: before ++ ' ' :: character :: rest)).2 =
              Text.trimStart (before ++ ' ' :: character :: rest) := by
          simp [splitWord, Text.splitAtFirst, space]
        rw [split]
        exact kept before
      · have split :
            (splitWord (first :: before ++ ' ' :: character :: rest)).2 =
              (splitWord (before ++ ' ' :: character :: rest)).2 := by
          rw [List.cons_append, splitWord, Text.splitAtFirst, if_neg space,
            splitWord]
          cases Text.splitAtFirst Text.isSpace
              (before ++ ' ' :: character :: rest) with
          | some parts => rfl
          | none => rfl
        rw [split]
        exact ih

/-! ## What a tag line is read as -/

theorem closeTag_nil {tag : Tag} (ends : EndsSolid tag.description.toList) :
    closeTag tag [] = tag := by
  have trimmed : Text.trimEndString tag.description = tag.description := by
    rw [Text.trimEndString, Text.trimEnd_of_endsSolid ends,
      String.ofList_toList]
  rw [closeTag, List.foldl_nil, trimmed]

theorem lineTag_described (kind : TagKind) {word text : List Char}
    (first : FirstWord word)
    (solid : ∀ character ∈ word, Text.isSpace character = false)
    (starts : StartsSolid text) (ends : EndsSolid text) :
    lineTag kind (word ++ spaced text) =
      ⟨kind, String.ofList (dropBrackets word), String.ofList text⟩ := by
  have untyped : dropType (word ++ spaced text) = word ++ spaced text :=
    dropType_of_braceless (first.braceless_append _)
  have named : openTag.named (word ++ spaced text) kind =
      ⟨kind, String.ofList (dropBrackets word), String.ofList text⟩ := by
    rw [openTag.named, untyped, splitWord_spaced solid starts]
  rw [lineTag, named]
  exact closeTag_nil (by simpa using ends)

theorem lineTag_typeMark {kind : TagKind} {type : List Char}
    (flat : '}' ∉ type) {rest : List Char} (starts : StartsSolid rest)
    (braceless : rest.head? ≠ some '{') :
    lineTag kind (typeMark type ++ rest) = lineTag kind rest := by
  rw [lineTag, lineTag, openTag.named, openTag.named,
    dropType_typeMark flat starts, dropType_of_braceless braceless]

/-- With a closing brace inside the type, all that stands behind the type goes to
the text of the tag. -/
theorem suffix_lineTag_nested (kind : TagKind) {type : List Char}
    (nested : '}' ∈ type) {rest : List Char} (starts : StartsSolid rest)
    (ends : EndsSolid rest) (nonempty : rest ≠ []) :
    rest <:+ (lineTag kind (typeMark type ++ rest)).description.toList := by
  obtain ⟨before, dropped⟩ := dropType_nested nested rest
  obtain ⟨first, later, rfl⟩ := List.exists_cons_of_ne_nil nonempty
  obtain ⟨read, split⟩ := suffix_splitWord (starts first rfl) before later
  have named : (openTag.named (typeMark type ++ first :: later)
      kind).description = String.ofList (read ++ first :: later) := by
    rw [openTag.named, dropped, split]
  have solid : EndsSolid (openTag.named (typeMark type ++ first :: later)
      kind).description.toList := by
    rw [named, String.toList_ofList]
    exact ends.behind nonempty read
  rw [lineTag, closeTag_nil solid, named, String.toList_ofList]
  exact List.suffix_append _ _

theorem dropBrackets_defaulted {name default : List Char}
    (bare : BareName name) : dropBrackets (defaulted name default) = name := by
  have absent : ∀ character ∈ name, (character != '=') = true := by
    intro character member
    have other : character ≠ '=' := fun same =>
      bare.unmarked '=' (by decide) (same ▸ member)
    simpa using other
  have spelled : defaulted name default =
      '[' :: (name ++ '=' :: default ++ [']']) := rfl
  rw [spelled, dropBrackets, List.getLast?_concat, if_pos rfl,
    List.dropLast_concat, List.takeWhile_append_of_pos absent,
    List.takeWhile_cons_of_neg (by decide), List.append_nil]

/-- A default with white space is cut there, and the opening bracket stays with
the name. -/
theorem name_lineTag_broken (kind : TagKind) {name default : List Char}
    (unbracketed : ']' ∉ default)
    (broken : ∃ character ∈ default, Text.isSpace character = true)
    (bare : BareName name) (text : List Char) :
    (lineTag kind (defaulted name default ++ spaced text)).name.toList.head? =
      some '[' := by
  obtain ⟨space, found⟩ := Option.isSome_iff_exists.mp
    (List.find?_isSome.mpr broken)
  obtain ⟨isSpace, before, after, rfl, solid⟩ :=
    List.find?_eq_some_iff_append.mp found
  have absent : ∀ character ∈ '[' :: name ++ '=' :: before,
      Text.isSpace character = false := by
    intro character member
    simp only [List.cons_append, List.mem_cons, List.mem_append] at member
    rcases member with rfl | inName | rfl | inDefault
    · rfl
    · exact bare.solid character inName
    · rfl
    · simpa using solid character inDefault
  have spelled : defaulted name (before ++ space :: after) ++ spaced text =
      ('[' :: name ++ '=' :: before) ++
        space :: (after ++ [']'] ++ spaced text) := by
    simp [defaulted]
  have open_ended : ¬ (name ++ '=' :: before).getLast? = some ']' := by
    intro last
    have member := List.mem_of_mem_getLast? last
    simp only [List.mem_append, List.mem_cons] at member
    rcases member with inName | equal | inDefault
    · exact bare.unmarked ']' (by decide) inName
    · exact absurd equal (by decide)
    · exact unbracketed (List.mem_append_left _ inDefault)
  have whole : dropBrackets ('[' :: name ++ '=' :: before) =
      '[' :: name ++ '=' :: before :=
    if_neg open_ended
  have split := splitAtFirst_append absent isSpace
    (after ++ [']'] ++ spaced text)
  have named : (openTag.named
      (defaulted name (before ++ space :: after) ++ spaced text) kind).name =
        String.ofList ('[' :: name ++ '=' :: before) := by
    rw [spelled, openTag.named, dropType_of_braceless (by simp), splitWord,
      split]
    simp only [whole]
  have closed : (lineTag kind
      (defaulted name (before ++ space :: after) ++ spaced text)).name =
        String.ofList ('[' :: name ++ '=' :: before) := named
  rw [closed, String.toList_ofList]
  rfl

/-! ## When types and defaults are read -/

section Reads

variable {kind : TagKind} {name word text : List Char}

theorem readsAs_described_iff (named : kind.layout = .named)
    (textLine : OneLine text) (ends : EndsSolid text) (first : FirstWord word) :
    ReadsAs kind (described word text) name text ↔
      lineTag kind (word ++ spaced text) =
        ⟨kind, String.ofList name, String.ofList text⟩ := by
  have line : OneLine ([] ++ described word text) :=
    first.line.described textLine
  have read := ofSource_described named line (first.startsSolid _) first ends
  exact readsAs_iff read

theorem readsAs_described (named : kind.layout = .named)
    (textLine : OneLine text) (starts : StartsSolid text)
    (ends : EndsSolid text) (bare : BareName name) :
    ReadsAs kind (described name text) name text := by
  have first := bare.firstWord
  have plain := lineTag_described kind first bare.solid starts ends
  rw [dropBrackets_of_plain bare.plainName] at plain
  exact (readsAs_described_iff named textLine ends first).mpr plain

/-- With a default a name is read exactly if there is no white space in the
default. -/
theorem readsAs_defaulted (named : kind.layout = .named)
    (textLine : OneLine text) (starts : StartsSolid text)
    (ends : EndsSolid text) (bare : BareName name) {default : List Char}
    (line : OneLine default) (unbracketed : ']' ∉ default) :
    ReadsAs kind (described (defaulted name default) text) name text ↔
      ∀ character ∈ default, Text.isSpace character = false := by
  have first := firstWord_defaulted bare line
  rw [readsAs_described_iff named textLine ends first]
  constructor
  · intro tag character member
    by_contra space
    have opening := name_lineTag_broken kind unbracketed
      ⟨character, member, Bool.not_eq_false _ ▸ space⟩ bare text
    rw [tag, String.toList_ofList] at opening
    exact bare.unmarked '[' (by decide) (List.mem_of_mem_head? opening)
  · intro unbroken
    have solid : ∀ character ∈ defaulted name default,
        Text.isSpace character = false := by
      intro character member
      simp only [defaulted, List.cons_append, List.mem_cons, List.mem_append,
        List.not_mem_nil, or_false] at member
      rcases member with rfl | (inName | rfl | inDefault) | rfl
      · rfl
      · exact bare.solid character inName
      · rfl
      · exact unbroken character inDefault
      · rfl
    have plain := lineTag_described kind first solid starts ends
    rwa [dropBrackets_defaulted bare] at plain

/-- With a type a tag line is read as without it exactly if no brace closes
inside the type. -/
theorem readsAs_typeMark (named : kind.layout = .named)
    (textLine : OneLine text) (ends : EndsSolid text) {type : List Char}
    (line : OneLine type) (first : FirstWord word) :
    ReadsAs kind (typeMark type ++ described word text) name text ↔
      '}' ∉ type ∧ ReadsAs kind (described word text) name text := by
  have brace : StartsSolid (typeMark type ++ (word ++ spaced text)) := by
    intro character head
    obtain rfl : '{' = character := Option.some.inj head
    rfl
  have read := ofSource_described named
    (line.typed (first.line.described textLine)) brace first ends
  rw [readsAs_iff read, readsAs_described_iff named textLine ends first]
  by_cases nested : '}' ∈ type
  · refine iff_of_false (fun tag => ?_) (fun both => both.1 nested)
    -- The text would have all of the line behind the type in it.
    have behind := suffix_lineTag_nested kind nested (first.startsSolid _)
      (first.endsSolid ends) (by simp [first.nonempty])
    rw [tag, String.toList_ofList] at behind
    have shorter := behind.length_le
    have filled := List.length_pos_iff.mpr first.nonempty
    have longer : text.length ≤ (spaced text).length := by
      cases text with
      | nil => exact Nat.zero_le _
      | cons character rest => exact Nat.le_succ _
    rw [List.length_append] at shorter
    omega
  · have untyped := first.braceless_append (spaced text)
    rw [lineTag_typeMark nested (first.startsSolid _) untyped]
    exact ⟨fun tag => ⟨nested, tag⟩, And.right⟩

end Reads

/-- The tag line of a parameter or a return with a bare name is read as this
name and its text.  With a type it is so exactly if no brace closes inside the
type, and with a default exactly if there is no white space in it.  In a balanced
type a brace closes exactly if one opens. -/
theorem readsAs_typed_defaulted {kind : TagKind} (named : kind.layout = .named)
    {type default name text : List Char} (typeLine : OneLine type)
    (defaultLine : OneLine default) (unbracketed : ']' ∉ default)
    (bare : BareName name) (textLine : OneLine text)
    (starts : StartsSolid text) (ends : EndsSolid text) :
    let reads (rest : List Char) := ReadsAs kind rest name text
    let unbroken := ∀ character ∈ default, Text.isSpace character = false
    reads (described name text) ∧
      (reads (typeMark type ++ described name text) ↔ '}' ∉ type) ∧
      (reads (typeMark type ++ described (defaulted name default) text) ↔
        '}' ∉ type ∧ unbroken) ∧
      (reads (described (defaulted name default) text) ↔ unbroken) ∧
      (Balanced type → ('}' ∈ type ↔ '{' ∈ type)) := by
  intro reads unbroken
  have plain : reads (described name text) :=
    readsAs_described named textLine starts ends bare
  have optional : reads (described (defaulted name default) text) ↔ unbroken :=
    readsAs_defaulted named textLine starts ends bare defaultLine unbracketed
  have typed {word : List Char} (first : FirstWord word) :
      reads (typeMark type ++ described word text) ↔
        '}' ∉ type ∧ reads (described word text) :=
    readsAs_typeMark named textLine ends typeLine first
  refine ⟨plain, (typed bare.firstWord).trans (and_iff_left plain), ?_,
    optional, Balanced.closing_mem_iff⟩
  exact (typed (firstWord_defaulted bare defaultLine)).trans
    (and_congr_right fun _ => optional)

/-- A type with spaces and a default are skipped, and braces in the text stay. -/
theorem readsAs_typed_defaulted_client :
    let type := "'pc' | 'app'".toList
    let default := "'pc'".toList
    let name := "client.kind".toList
    let text := "Kind of client, see \x7bClient\x7d.".toList
    OneLine type ∧ OneLine default ∧ BareName name ∧ OneLine text ∧
      ReadsAs .param (typeMark type ++ described (defaulted name default) text)
        name text := by
  intro type default name text
  have typeLine : OneLine type := by decide +kernel
  have defaultLine : OneLine default := by decide +kernel
  have textLine : OneLine text := by decide +kernel
  have bare : BareName name := by decide +kernel
  have unbroken : default.all (!Text.isSpace ·) = true := by decide +kernel
  have named : TagKind.param.layout = .named := rfl
  obtain ⟨_, _, both, _, _⟩ :=
    readsAs_typed_defaulted named typeLine defaultLine (by decide +kernel)
      bare textLine (by decide +kernel) (by decide +kernel)
  exact ⟨typeLine, defaultLine, bare, textLine,
    both.mpr ⟨by decide +kernel, by simpa using unbroken⟩⟩

/-- A balanced type with braces inside is not skipped as a whole, and neither is
a default with a space. -/
theorem not_readsAs_nested :
    (¬ ∀ type name text : List Char,
      OneLine type → Balanced type → BareName name → OneLine text →
      StartsSolid text → EndsSolid text →
      ReadsAs .param (typeMark type ++ described name text) name text) ∧
    ¬ ∀ default name text : List Char,
      OneLine default → ']' ∉ default → BareName name → OneLine text →
      StartsSolid text → EndsSolid text →
      ReadsAs .param (described (defaulted name default) text) name text := by
  have bare : BareName "opts".toList := by decide +kernel
  have text : OneLine "o".toList := by decide +kernel
  constructor
  · intro skipped
    have balanced : Balanced ('{' :: "a: number".toList ++ '}' :: []) :=
      .nest (balanced_of_plain (by decide +kernel) (by decide +kernel)) .nil
    have read := skipped _ _ _ (by decide +kernel) balanced bare text
      (by decide +kernel) (by decide +kernel)
    exact absurd read (by decide +kernel)
  · intro skipped
    have read := skipped "a b".toList _ _ (by decide +kernel)
      (by decide +kernel) bare text (by decide +kernel) (by decide +kernel)
    exact absurd read (by decide +kernel)

end TagDoc.CommentBlock
