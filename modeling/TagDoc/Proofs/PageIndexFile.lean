import TagDoc.Proofs.JsonReading
import TagDoc.Proofs.Results
import TagDoc.Store.Disk

/-!
# The file of the page index

A page index that is written out is read back as it was, provided that 64 bits
hold its display orders; otherwise its text is refused.  Every index that is
read has each key once.
-/

namespace TagDoc

open Json Json.Decoder

/-! ## What decoding keeps -/

section Decoders

variable {α ρ : Type} {holds : ρ → Prop}

/-- Filling the field keeps a property of records. -/
def FillKeeps (holds : ρ → Prop) (field : Decoder.Field ρ) : Prop :=
  ∀ draft before after, field.fill draft before = .ok after →
    holds before → holds after

theorem recordMembers_keeps {fields : List (Decoder.Field ρ)} {ending : Ending}
    (keeps : ∀ field ∈ fields, FillKeeps holds field)
    {given : List String} {start result : ρ}
    {members : List (Option String × Draft)} (before : holds start)
    (decoded : recordMembers fields ending given start members = .ok result) :
    holds result := by
  induction members generalizing given start with
  | nil =>
      obtain ⟨_, _, checked⟩ := bind_eq_ok.mp decoded
      split at checked
      · cases checked
      · cases checked
        exact before
  | cons member rest ih =>
      obtain ⟨name, draft⟩ := member
      cases name with
      | none => cases decoded
      | some name =>
          rw [recordMembers] at decoded
          split at decoded
          · obtain ⟨_, _, others⟩ := bind_eq_ok.mp decoded
            exact ih before others
          · next field found =>
              split at decoded
              · cases decoded
              · obtain ⟨after, filled, others⟩ := bind_eq_ok.mp decoded
                have member := List.mem_of_find?_eq_some found
                exact ih (keeps field member draft start after filled before)
                  others

theorem recordItems_keeps {dialect : Dialect} {fields : List (Decoder.Field ρ)}
    {ending : Ending} (keeps : ∀ field ∈ fields, FillKeeps holds field)
    {start result : ρ} {items : List Draft} (before : holds start)
    (decoded : recordItems dialect ending fields start items = .ok result) :
    holds result := by
  induction fields generalizing start items with
  | nil =>
      cases items with
      | nil =>
          obtain ⟨_, _, same⟩ := bind_eq_ok.mp decoded
          cases same
          exact before
      | cons item rest =>
          rw [recordItems] at decoded
          split at decoded
          · cases decoded
          · cases decoded
            exact before
  | cons field others ih =>
      cases items with
      | nil =>
          obtain ⟨_, _, checked⟩ := bind_eq_ok.mp decoded
          split at checked
          · cases checked
          · cases checked
            exact before
      | cons item rest =>
          obtain ⟨after, filled, later⟩ := bind_eq_ok.mp decoded
          have here := keeps field List.mem_cons_self item start after filled
          exact ih (fun field member =>
            keeps field (List.mem_cons_of_mem _ member)) (here before) later

theorem refuse_ne_ok (draft : Draft) (value : α) :
    refuse draft ≠ .ok value := by
  intro refused
  unfold refuse at refused
  split at refused <;> cases refused

/-- A property that the start of a record has and every field keeps holds of
all records that are decoded. -/
theorem record_keeps {dialect : Dialect} {fields : List (Decoder.Field ρ)}
    (keeps : ∀ field ∈ fields, FillKeeps holds field)
    {start result : ρ} {draft : Draft} (before : holds start)
    (decoded : record dialect fields start draft = .ok result) :
    holds result := by
  unfold record at decoded
  split at decoded
  · obtain ⟨_, _, members⟩ := bind_eq_ok.mp decoded
    exact recordMembers_keeps keeps before members
  · obtain ⟨_, _, items⟩ := bind_eq_ok.mp decoded
    exact recordItems_keeps keeps before items
  · exact (refuse_ne_ok draft result decoded).elim

theorem nodup_members {decoder : Decoder α} {entries result : Assoc α}
    {members : List (Option String × Draft)}
    (distinct : (Assoc.keys entries).Nodup)
    (decoded : Json.Decoder.members decoder entries members = .ok result) :
    (Assoc.keys result).Nodup := by
  induction members generalizing entries with
  | nil =>
      cases decoded
      exact distinct
  | cons member rest ih =>
      obtain ⟨name, draft⟩ := member
      cases name with
      | none => cases decoded
      | some name =>
          obtain ⟨value, _, others⟩ := bind_eq_ok.mp decoded
          exact ih (Assoc.nodup_keys_put name value distinct) others

theorem nodup_assoc {decoder : Decoder α} {draft : Draft} {result : Assoc α}
    (decoded : assoc decoder draft = .ok result) :
    (Assoc.keys result).Nodup := by
  unfold assoc at decoded
  split at decoded
  · obtain ⟨_, _, opened⟩ := bind_eq_ok.mp decoded
    obtain ⟨values, members, ended⟩ := bind_eq_ok.mp opened
    obtain ⟨_, _, same⟩ := bind_eq_ok.mp ended
    cases same
    have none : (Assoc.keys ([] : Assoc α)).Nodup := List.nodup_nil
    exact nodup_members none members
  · exact (refuse_ne_ok draft result decoded).elim

end Decoders

namespace PageRecord

theorem ofText_eq_ok {text : String} {index : Assoc PageRecord} :
    indexOfText text = .ok index ↔
      indexDecoder (Document.ofText text).root = .ok index ∧
        (Document.ofText text).surplus = false := by
  rw [indexOfText, Document.decode, bind_eq_ok]
  constructor
  · intro read
    obtain ⟨value, decoded, ended⟩ := read
    split at ended
    · cases ended
    · next closed =>
        cases ended
        exact ⟨decoded, Bool.eq_false_iff.mpr closed⟩
  · intro read
    obtain ⟨decoded, closed⟩ := read
    exact ⟨index, decoded, by rw [closed]; rfl⟩

theorem nodup_of_indexOfText {text : String} {index : Assoc PageRecord}
    (read : indexOfText text = .ok index) : (Assoc.keys index).Nodup := by
  obtain ⟨decoded, _⟩ := ofText_eq_ok.mp read
  let distinct (index : Assoc PageRecord) : Prop := (Assoc.keys index).Nodup
  have none : distinct [] := List.nodup_nil
  have keeps : ∀ field ∈ [Decoder.Field.needed "pages" (assoc PageRecord.decoder)
      fun value (_ : Assoc PageRecord) => value], FillKeeps distinct field := by
    intro field member draft before after filled _
    rw [List.mem_singleton.mp member] at filled
    obtain ⟨value, found, same⟩ := bind_eq_ok.mp filled
    cases same
    exact nodup_assoc found
  exact record_keeps keeps none decoded

/-! ## Reading what was written -/

/-- The draft that is found for the text of a page. -/
def draft (level : Nat) (record : PageRecord) : Draft :=
  .object level
    [ (some "url", .string (some record.url)),
      (some "order", .number (Numeral.ofNat record.order).value?) ]
    .closed

theorem reads_json (level : Nat) (record : PageRecord) :
    Reads level record.json (record.draft level) := by
  refine reads_object (.cons ⟨rfl, ?_⟩ (.cons ⟨rfl, ?_⟩ .nil))
  · exact reads_string _ record.url
  · exact reads_natural _ record.order

theorem count_ofNat (value other : Nat) :
    count (.number (Numeral.ofNat value).value?) = .ok other ↔
      other = value ∧ value ≤ Numeral.limit := by
  by_cases fits : value ≤ Numeral.limit
  · simp [value?_ofNat_of_le fits, count, fits, eq_comm]
  · have large := value?_ofNat_of_lt (Nat.not_le.mp fits)
    cases read : (Numeral.ofNat value).value? with
    | none => simp [count, refuse, fits]
    | some number =>
        cases number with
        | integer integer => exact (large integer read).elim
        | double double => simp [count, refuse, fits]

theorem decoder_draft {level : Nat} (shallow : level < Draft.depthLimit)
    (record other : PageRecord) :
    PageRecord.decoder (record.draft level) = .ok other ↔
      other = record ∧ record.order ≤ Numeral.limit := by
  have opens : Draft.enter level = .ok () := if_pos shallow
  have fields : PageRecord.decoder (record.draft level) =
      (count (.number (Numeral.ofNat record.order).value?)).bind
        fun order => .ok { record with order } := by
    cases answer : count (.number (Numeral.ofNat record.order).value?) with
    | error fault =>
        simp [PageRecord.decoder, Json.Decoder.record, recordMembers, opens,
          Field.needed, text, bind, Except.bind, draft, answer]
    | ok order =>
        simp [PageRecord.decoder, Json.Decoder.record, recordMembers, opens,
          Field.needed, text, Ending.read, bind, Except.bind, draft, answer]
  rw [fields]
  constructor
  · intro decoded
    obtain ⟨order, counted, same⟩ := bind_eq_ok.mp decoded
    obtain ⟨rfl, fits⟩ := (count_ofNat _ _).mp counted
    cases same
    exact ⟨rfl, fits⟩
  · intro stated
    obtain ⟨rfl, fits⟩ := stated
    exact bind_eq_ok.mpr ⟨_, (count_ofNat _ _).mpr ⟨rfl, fits⟩, rfl⟩

theorem members_draft {level : Nat} (shallow : level < Draft.depthLimit)
    {entries index other : Assoc PageRecord}
    (distinct : (Assoc.keys (entries ++ index)).Nodup) :
    members PageRecord.decoder entries
        (index.map fun (key, page) => (some key, page.draft level)) =
      .ok other ↔
      other = entries ++ index ∧
        ∀ entry ∈ index, entry.2.order ≤ Numeral.limit := by
  induction index generalizing entries with
  | nil => simp [members, eq_comm]
  | cons entry rest ih =>
      obtain ⟨key, page⟩ := entry
      have moved : entries ++ (key, page) :: rest =
          entries ++ [(key, page)] ++ rest := by
        simp
      have new : key ∉ Assoc.keys entries := by
        intro known
        rw [Assoc.keys, List.map_append, List.nodup_append] at distinct
        exact distinct.2.2 key known key List.mem_cons_self rfl
      have later : members PageRecord.decoder (Assoc.put key page entries)
          (rest.map fun (key, page) => (some key, page.draft level)) =
          .ok other ↔
          other = entries ++ (key, page) :: rest ∧
            ∀ entry ∈ rest, entry.2.order ≤ Numeral.limit := by
        rw [Assoc.put_of_not_mem page new, moved]
        exact ih (moved ▸ distinct)
      rw [List.map_cons, List.forall_mem_cons]
      constructor
      · intro decoded
        obtain ⟨value, here, others⟩ := bind_eq_ok.mp decoded
        obtain ⟨rfl, fits⟩ := (decoder_draft shallow _ _).mp here
        obtain ⟨same, further⟩ := later.mp others
        exact ⟨same, fits, further⟩
      · intro stated
        obtain ⟨same, fits, further⟩ := stated
        exact bind_eq_ok.mpr ⟨page, (decoder_draft shallow _ _).mpr ⟨rfl, fits⟩,
          later.mpr ⟨same, further⟩⟩

/-- The draft that is found for the text of an index. -/
def indexDraft (index : Assoc PageRecord) : Draft :=
  .object 0
    [ (some "pages",
        .object 1 (index.map fun (key, page) => (some key, page.draft 2))
          .closed) ]
    .closed

theorem reads_index (index : Assoc PageRecord) :
    Reads 0
      (.object
        [("pages", .object (index.map fun (key, page) => (key, page.json)))])
      (indexDraft index) := by
  have pages : ReadsMembers 2 (index.map fun (key, page) => (key, page.json))
      (index.map fun (key, page) => (some key, page.draft 2)) := by
    refine List.forall₂_map_left_iff.mpr (List.forall₂_map_right_iff.mpr ?_)
    exact List.forall₂_same.mpr fun entry _ => ⟨rfl, reads_json 2 entry.2⟩
  exact reads_object (.cons ⟨rfl, reads_object pages⟩ .nil)

theorem ofText_indexText (index : Assoc PageRecord) :
    Document.ofText (indexText index) = ⟨indexDraft index, false⟩ := by
  have enough : (indexText index).toList.length ≤
      2 * (indexText index).toList.length + 2 := by
    omega
  have read := reads_index index _ [] enough trivial
  have whole : scanValue (2 * (indexText index).toList.length + 2) 0
      (indexText index).toList = (indexDraft index, []) := by
    rw [List.append_nil] at read
    exact read
  rw [Document.ofText]
  dsimp only
  rw [whole]
  rfl

theorem indexDecoder_indexDraft (index : Assoc PageRecord) :
    indexDecoder (indexDraft index) =
      members PageRecord.decoder []
        (index.map fun (key, page) => (some key, page.draft 2)) := by
  cases answer : members PageRecord.decoder []
      (index.map fun (key, page) => (some key, page.draft 2)) with
  | error fault =>
      simp [indexDecoder, indexDraft, Json.Decoder.record, recordMembers,
        Field.needed, assoc, Draft.enter, Draft.depthLimit, bind, Except.bind,
        answer]
  | ok pages =>
      simp [indexDecoder, indexDraft, Json.Decoder.record, recordMembers,
        Field.needed, assoc, Draft.enter, Draft.depthLimit, Ending.read, bind,
        Except.bind, answer]

/-- An index with distinct keys is read back from its text as it was; the text
is refused if 64 bits do not hold a display order. -/
theorem indexOfText_indexText {index other : Assoc PageRecord}
    (distinct : (Assoc.keys index).Nodup) :
    indexOfText (indexText index) = .ok other ↔
      other = index ∧ ∀ entry ∈ index, entry.2.order ≤ Numeral.limit := by
  have shallow : 2 < Draft.depthLimit := by decide
  have alone : (Assoc.keys ([] ++ index)).Nodup := distinct
  rw [ofText_eq_ok, ofText_indexText, and_iff_left rfl,
    indexDecoder_indexDraft]
  exact members_draft shallow alone

end PageRecord

end TagDoc
