import TagDoc.Proofs.FindingForms
import TagDoc.Proofs.PageTables
import TagDoc.Proofs.Stripping

/-!
# How return entries are written

The section of the returns has a block for each entry, in order, and a fence
loses no more than line breaks at the end of a text.  Texts of several lines
are fenced, but those that begin with a line break are not, so the section has
a fence around every text of several lines only if no text begins with a line
break: `returns_fences`.
-/

namespace TagDoc

/-- A text of more than one line. -/
def MultiLine (text : String) : Prop :=
  '\n' ∈ text.toList

/-- A text whose first line is empty. -/
def BeginsWithBreak (text : String) : Prop :=
  text.toList.head? = some '\n'

instance : DecidablePred MultiLine :=
  fun text => inferInstanceAs (Decidable ('\n' ∈ text.toList))

instance : DecidablePred BeginsWithBreak :=
  fun text => inferInstanceAs (Decidable (text.toList.head? = some '\n'))

theorem BeginsWithBreak.multiLine {text : String}
    (begins : BeginsWithBreak text) : MultiLine text :=
  List.mem_of_mem_head? begins

namespace RoutePage

/-! ## Blocks -/

/-- A return entry as it is written: with or without a heading, and with its
text in a fence or as it is. -/
structure ReturnBlock where
  heading : Option String
  fenced : Bool
  text : String
deriving DecidableEq, Repr

namespace ReturnBlock

def headingLine (block : ReturnBlock) : String :=
  match block.heading with
  | some name => "### " ++ name ++ "\n"
  | none => ""

def body (block : ReturnBlock) : String :=
  if block.fenced then "```js\n" ++ block.text ++ "\n```\n"
  else block.text ++ "\n"

/-- A block ends with an empty line. -/
def markdown (block : ReturnBlock) : String :=
  block.headingLine ++ block.body ++ "\n"

/-- A block shows an entry, given which texts are to be fenced.  A fence may
lose line breaks at the end of the text. -/
structure Shows (fences : String → Prop) (block : ReturnBlock)
    (entry : ReturnEntry) : Prop where
  heading : block.heading = if entry.name = "" then none else some entry.name
  fenced : block.fenced = true ↔ fences entry.description
  plain : block.fenced = false → block.text = entry.description
  kept : block.fenced = true →
    block.text.toList.getLast? ≠ some '\n' ∧
      ∃ lost : String, Text.Only '\n' lost.toList ∧
        entry.description = block.text ++ lost

/-- Whether to fence is all that blocks of one entry can differ in. -/
theorem Shows.eq {fences fences' : String → Prop} {first second : ReturnBlock}
    {entry : ReturnEntry} (one : first.Shows fences entry)
    (two : second.Shows fences' entry)
    (agree : fences entry.description ↔ fences' entry.description) :
    first = second := by
  have fenced : first.fenced = second.fenced := by
    rw [Bool.eq_iff_iff, one.fenced, two.fenced]
    exact agree
  have text : first.text = second.text := by
    cases fence : first.fenced with
    | false => rw [one.plain fence, two.plain (fenced ▸ fence)]
    | true =>
        obtain ⟨last, lost, only, spelled⟩ := one.kept fence
        obtain ⟨last', lost', only', spelled'⟩ := two.kept (fenced ▸ fence)
        calc first.text
            = Text.stripCharEnd '\n' entry.description := by
              rw [spelled, Text.stripCharEnd_of_behind last only]
          _ = second.text := by
              rw [spelled', Text.stripCharEnd_of_behind last' only']
  have heading : first.heading = second.heading :=
    one.heading.trans two.heading.symm
  cases first
  cases second
  cases fenced
  cases text
  cases heading
  rfl

end ReturnBlock

/-- A section has a block for each entry, with the given texts fenced. -/
def ShowsReturns (fences : String → Prop) (entries : List ReturnEntry)
    (part : Section) : Prop :=
  ∃ blocks, List.Forall₂ (ReturnBlock.Shows fences) blocks entries ∧
    part = ⟨2, some "返回结果", String.join (blocks.map ReturnBlock.markdown)⟩

/-- Entries that are not a single one with a layout of its own. -/
def Itemized (entries : List ReturnEntry) : Prop :=
  entries ≠ [] ∧ ∀ only, entries = [only] → ¬ BeginsWithBreak only.description

theorem itemized_several (first second : ReturnEntry)
    (rest : List ReturnEntry) : Itemized (first :: second :: rest) := by
  refine ⟨List.cons_ne_nil _ _, ?_⟩
  intro only same
  cases same

/-! ## The blocks of a section -/

theorem isMultiline_iff {text : String} :
    isMultiline text = true ↔ MultiLine text ∧ ¬ BeginsWithBreak text := by
  rw [isMultiline, Bool.and_eq_true, bne_iff_ne, List.contains_iff_mem,
    and_comm]
  rfl

/-- The block of an entry on a page. -/
def returnBlock (entry : ReturnEntry) : ReturnBlock where
  heading := if entry.name = "" then none else some entry.name
  fenced := isMultiline entry.description
  text :=
    if isMultiline entry.description then
      Text.stripCharEnd '\n' entry.description
    else entry.description

theorem shows_returnBlock (entry : ReturnEntry) :
    (returnBlock entry).Shows
      (fun text => MultiLine text ∧ ¬ BeginsWithBreak text) entry := by
  constructor
  · rfl
  · exact isMultiline_iff
  · intro plain
    have single : isMultiline entry.description = false := plain
    simp only [returnBlock, single, Bool.false_eq_true, if_false]
  · intro fenced
    have several : isMultiline entry.description = true := fenced
    simp only [returnBlock, several, if_true]
    exact Text.exists_behind '\n' entry.description

theorem join_returnLines (entry : ReturnEntry) :
    String.join ((returnLines entry).map (· ++ "\n")) =
      (returnBlock entry).markdown := by
  unfold returnLines ReturnBlock.markdown
  rw [List.map_append, List.map_append, String.join_append, String.join_append]
  congr 1
  · congr 1
    · by_cases unnamed : entry.name = ""
      · simp [ReturnBlock.headingLine, returnBlock, unnamed]
      · simp [ReturnBlock.headingLine, returnBlock, unnamed]
    · cases several : isMultiline entry.description with
      | false => simp [ReturnBlock.body, returnBlock, several]
      | true =>
          simp [ReturnBlock.body, returnBlock, several, String.append_assoc]

theorem returns_eq (unit : String) {entries : List ReturnEntry}
    (itemized : Itemized entries) :
    returns unit entries =
      ⟨⟨2, some "返回结果",
        String.join (entries.map fun entry => (returnBlock entry).markdown)⟩,
        []⟩ := by
  have blocks : returns unit entries =
      pure ((Section.titled 2 "返回结果").lines
        (entries.flatMap returnLines)) := by
    obtain ⟨nonempty, own⟩ := itemized
    match entries with
    | [] => exact (nonempty rfl).elim
    | [only] =>
        have several : ¬ only.description.toList.head? = some '\n' :=
          own only rfl
        simp only [returns, several, if_false, List.flatMap_singleton]
    | _ :: _ :: _ => rfl
  have texts : String.join ((entries.flatMap returnLines).map (· ++ "\n")) =
      String.join (entries.map fun entry => (returnBlock entry).markdown) := by
    clear blocks itemized
    induction entries with
    | nil => rfl
    | cons entry rest ih =>
        rw [List.flatMap_cons, List.map_append, String.join_append,
          join_returnLines, ih, List.map_cons, String.join_cons]
  rw [blocks, Section.lines_eq, texts]
  simp only [Section.titled, String.empty_append]
  rfl

/-! ## Fences around all texts of several lines -/

/-- A block with a fence and one of a text that begins with a line break differ
right behind their headings. -/
theorem markdown_ne_of_break {fenced plain : ReturnBlock}
    (fence : fenced.fenced = true) (bare : plain.fenced = false)
    (heading : fenced.heading = plain.heading)
    (begins : BeginsWithBreak plain.text) (rest rest' : String) :
    fenced.markdown ++ rest ≠ plain.markdown ++ rest' := by
  intro same
  have headings : fenced.headingLine = plain.headingLine := by
    rw [ReturnBlock.headingLine, ReturnBlock.headingLine, heading]
  have letters := congrArg String.toList same
  simp only [ReturnBlock.markdown, headings, String.toList_append,
    List.append_assoc] at letters
  have heads := congrArg List.head? (List.append_cancel_left letters)
  have opens : plain.text.toList.head? = some '\n' := begins
  simp [ReturnBlock.body, fence, bare, opens] at heads

theorem not_beginsWithBreak_of_join {blocks : List ReturnBlock}
    {entries : List ReturnEntry}
    (shown : List.Forall₂ (ReturnBlock.Shows MultiLine) blocks entries)
    (same : String.join (blocks.map ReturnBlock.markdown) =
      String.join (entries.map fun entry => (returnBlock entry).markdown)) :
    ∀ entry ∈ entries, ¬ BeginsWithBreak entry.description := by
  induction shown with
  | nil => exact fun _ member => (List.not_mem_nil member).elim
  | @cons block entry blocks entries first _ ih =>
      rw [List.map_cons, List.map_cons, String.join_cons, String.join_cons]
        at same
      have own := shows_returnBlock entry
      have solid : ¬ BeginsWithBreak entry.description := by
        intro begins
        have plain : (returnBlock entry).fenced = false := by
          rw [Bool.eq_false_iff, ne_eq, own.fenced]
          exact fun fenced => fenced.2 begins
        refine markdown_ne_of_break (first.fenced.mpr begins.multiLine) plain
          (first.heading.trans own.heading.symm) ?_ _ _ same
        rw [own.plain plain]
        exact begins
      have block_eq : block = returnBlock entry :=
        first.eq own ⟨fun several => ⟨several, solid⟩, And.left⟩
      rw [block_eq] at same
      have later := ih ((String.append_right_inj _).mp same)
      exact List.forall_mem_cons.mpr ⟨solid, later⟩

section Sections

variable (unit : String) {entries : List ReturnEntry}

theorem showsReturns_returns (itemized : Itemized entries) :
    ShowsReturns (fun text => MultiLine text ∧ ¬ BeginsWithBreak text) entries
      (returns unit entries).value := by
  refine ⟨entries.map returnBlock, ?_, ?_⟩
  · rw [List.forall₂_map_left_iff, List.forall₂_same]
    exact fun entry _ => shows_returnBlock entry
  · rw [returns_eq unit itemized, List.map_map]
    rfl

theorem showsReturns_multiLine_iff (itemized : Itemized entries) :
    ShowsReturns MultiLine entries (returns unit entries).value ↔
      ∀ entry ∈ entries, ¬ BeginsWithBreak entry.description := by
  constructor
  · rintro ⟨blocks, shows, same⟩
    rw [returns_eq unit itemized] at same
    exact not_beginsWithBreak_of_join shows (congrArg Section.body same).symm
  · intro solid
    obtain ⟨blocks, shows, same⟩ := showsReturns_returns unit itemized
    refine ⟨blocks, ?_, same⟩
    clear same itemized
    induction shows with
    | nil => exact .nil
    | cons first _ ih =>
        obtain ⟨own, later⟩ := List.forall_mem_cons.mp solid
        have fenced := first.fenced.trans (and_iff_left own)
        exact .cons ⟨first.heading, fenced, first.plain, first.kept⟩ (ih later)

/-- The section of return entries.  It has a block for each entry in order, and
nothing is reported.  The texts in fences are those of several lines that do not
begin with a line break; hence all texts of several lines are fenced exactly if
none begins with a line break. -/
theorem returns_fences (itemized : Itemized entries) :
    let shown := returns unit entries
    shown.findings = [] ∧
      ShowsReturns (fun text => MultiLine text ∧ ¬ BeginsWithBreak text)
        entries shown.value ∧
      (ShowsReturns MultiLine entries shown.value ↔
        ∀ entry ∈ entries, ¬ BeginsWithBreak entry.description) := by
  intro shown
  refine ⟨?_, showsReturns_returns unit itemized,
    showsReturns_multiLine_iff unit itemized⟩
  have nonempty : entries.isEmpty = false :=
    List.isEmpty_eq_false_iff.mpr itemized.1
  rw [findings_returns, nonempty]
  rfl

end Sections

/-- A fence loses the line breaks at the end of its text. -/
theorem returns_fences_object :
    let entries : List ReturnEntry :=
      [⟨"成功", "\x7b\n  id: 1\n\x7d\n\n"⟩, ⟨"", "错误信息"⟩]
    Itemized entries ∧
      (returns "order" entries).value.body =
        "### 成功\n```js\n\x7b\n  id: 1\n\x7d\n```\n\n错误信息\n\n" ∧
      ShowsReturns MultiLine entries (returns "order" entries).value := by
  intro entries
  have itemized : Itemized entries := itemized_several _ _ _
  refine ⟨itemized, by decide +kernel, ?_⟩
  exact (returns_fences "order" itemized).2.2.mpr (by decide +kernel)

/-- A line without text behind the tag leaves a text that begins with a line
break, and the text is not fenced. -/
theorem not_showsReturns_gap :
    let source := "/** Order.\n * @returns 成功\n *\n * \x7b\n *   id: 1\n" ++
      " * \x7d\n * @returns 失败 错误信息\n */"
    ∃ doc, DocComment.ofSource? "order" source = some doc ∧
      Itemized doc.value.returns ∧
      ¬ ShowsReturns MultiLine doc.value.returns
        (returns "order" doc.value.returns).value := by
  intro source
  let entries : List ReturnEntry :=
    [⟨"成功", "\n\x7b\n  id: 1\n\x7d"⟩, ⟨"失败", "错误信息"⟩]
  have read : (DocComment.ofSource? "order" source).map
      (fun doc => doc.value.returns) = some entries := by
    decide +kernel
  obtain ⟨doc, found, listed⟩ := Option.map_eq_some_iff.mp read
  have itemized : Itemized doc.value.returns := by
    rw [listed]
    exact itemized_several _ _ _
  refine ⟨doc, found, itemized, ?_⟩
  rw [showsReturns_multiLine_iff "order" itemized, listed]
  intro solid
  exact solid _ List.mem_cons_self rfl

end RoutePage

end TagDoc
