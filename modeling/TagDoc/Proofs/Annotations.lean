import TagDoc.Proofs.Collector
import TagDoc.Proofs.ParamTree

/-!
# What a run of annotations leaves behind

The tree that a run builds is a function of the texts given for each sequence
of names: a node stands wherever a path leads to or through, and its
description is the first text that is not empty.  `Records` is the invariant of
the run and `Records.annotateAll` keeps it, together with the findings, which
depend only on the annotations before each step.
-/

namespace TagDoc

namespace ParamTree

/-- The texts given for exactly the sequence of names, in order. -/
def textsFor (names : List String) (annotations : List (String × String)) :
    List String :=
  annotations.filterMap fun (path, text) =>
    if (ParamPath.parse? path).map ParamPath.names = some names then some text
    else none

/-- The first text for a sequence of names that is not empty. -/
def firstText? (names : List String) (annotations : List (String × String)) :
    Option String :=
  (textsFor names annotations).find? fun text => !text.isEmpty

/-- The description for a sequence of names: absent without a text, and empty
when all texts are. -/
def describedBy (names : List String) (annotations : List (String × String)) :
    Option String :=
  match textsFor names annotations with
  | [] => none
  | _ :: _ => some ((firstText? names annotations).getD "")

/-- Some well-formed path leads to the sequence of names or through it. -/
def Mentioned (names : List String) (annotations : List (String × String)) :
    Prop :=
  ∃ path text parsed, (path, text) ∈ annotations ∧
    ParamPath.parse? path = some parsed ∧ names <+: parsed.names

/-- The finding of an annotation with the given path after earlier ones. -/
def stepFinding? (unit : String) (earlier : List (String × String))
    (path : String) : Option Finding :=
  match ParamPath.parse? path with
  | none => some (.malformedPath path unit)
  | some parsed =>
      if (firstText? parsed.names earlier).isSome then
        some (.annotatedTwice path unit)
      else none

/-- The tree is what the annotations leave behind. -/
structure Records (annotations : List (String × String)) (tree : ParamTree) :
    Prop where
  sorted : Sorted tree
  present : ∀ names, names ≠ [] → Mentioned names annotations →
    descriptionAt? names tree = some (describedBy names annotations)
  absent : ∀ names, names ≠ [] → ¬ Mentioned names annotations →
    descriptionAt? names tree = none

theorem names_ne_nil (parsed : ParamPath) : parsed.names ≠ [] := by
  simp [ParamPath.names]

/-! ## One more annotation -/

section Append

variable {names : List String} {earlier : List (String × String)}
  {path text : String} {parsed : ParamPath}

theorem textsFor_append (read : ParamPath.parse? path = some parsed) :
    textsFor names (earlier ++ [(path, text)]) =
      textsFor names earlier ++ if parsed.names = names then [text] else [] := by
  by_cases same : parsed.names = names
  · simp [textsFor, read, same]
  · simp [textsFor, read, same]

theorem textsFor_append_malformed (malformed : ParamPath.parse? path = none) :
    textsFor names (earlier ++ [(path, text)]) = textsFor names earlier := by
  simp [textsFor, malformed]

theorem mentioned_append (read : ParamPath.parse? path = some parsed) :
    Mentioned names (earlier ++ [(path, text)]) ↔
      Mentioned names earlier ∨ names <+: parsed.names := by
  constructor
  · intro mentioned
    obtain ⟨other, given, spelled, member, otherRead, leads⟩ := mentioned
    rcases List.mem_append.mp member with member | member
    · exact .inl ⟨other, given, spelled, member, otherRead, leads⟩
    · obtain ⟨rfl, rfl⟩ := Prod.mk.inj (List.mem_singleton.mp member)
      rw [read] at otherRead
      exact .inr (Option.some.inj otherRead ▸ leads)
  · intro either
    rcases either with
      ⟨other, given, spelled, member, otherRead, leads⟩ | leads
    · exact ⟨other, given, spelled, List.mem_append_left _ member, otherRead,
        leads⟩
    · exact ⟨path, text, parsed, by simp, read, leads⟩

theorem mentioned_append_malformed
    (malformed : ParamPath.parse? path = none) :
    Mentioned names (earlier ++ [(path, text)]) ↔ Mentioned names earlier := by
  constructor
  · intro mentioned
    obtain ⟨other, given, spelled, member, otherRead, leads⟩ := mentioned
    rcases List.mem_append.mp member with member | member
    · exact ⟨other, given, spelled, member, otherRead, leads⟩
    · obtain ⟨rfl, rfl⟩ := Prod.mk.inj (List.mem_singleton.mp member)
      simp [malformed] at otherRead
  · intro mentioned
    obtain ⟨other, given, spelled, member, otherRead, leads⟩ := mentioned
    exact ⟨other, given, spelled, List.mem_append_left _ member, otherRead,
      leads⟩

theorem textsFor_eq_nil (unmentioned : ¬ Mentioned names earlier) :
    textsFor names earlier = [] := by
  rw [textsFor, List.filterMap_eq_nil_iff]
  intro step member
  obtain ⟨path, text⟩ := step
  cases read : ParamPath.parse? path with
  | none => simp [read]
  | some parsed =>
      have different : parsed.names ≠ names := by
        intro same
        exact unmentioned ⟨path, text, parsed, member, read,
          same ▸ List.prefix_rfl⟩
      simp [read, different]

theorem describedBy_append_self (read : ParamPath.parse? path = some parsed) :
    describedBy parsed.names (earlier ++ [(path, text)]) =
      some ((firstText? parsed.names earlier).getD text) := by
  have texts : textsFor parsed.names (earlier ++ [(path, text)]) =
      textsFor parsed.names earlier ++ [text] := by
    rw [textsFor_append read, if_pos rfl]
  have described : describedBy parsed.names (earlier ++ [(path, text)]) =
      some ((firstText? parsed.names (earlier ++ [(path, text)])).getD "") := by
    cases given : textsFor parsed.names earlier with
    | nil => simp [describedBy, texts, given]
    | cons first rest => simp [describedBy, texts, given]
  rw [described, firstText?, texts, List.find?_append, firstText?]
  cases found : (textsFor parsed.names earlier).find? (!·.isEmpty) with
  | some first => simp
  | none =>
      by_cases empty : text = ""
      · simp [empty]
      · simp [empty]

theorem describedBy_append_of_ne (read : ParamPath.parse? path = some parsed)
    (different : names ≠ parsed.names) :
    describedBy names (earlier ++ [(path, text)]) =
      describedBy names earlier := by
  have texts : textsFor names (earlier ++ [(path, text)]) =
      textsFor names earlier := by
    simp [textsFor_append read, Ne.symm different]
  simp [describedBy, firstText?, texts]

theorem describedBy_append_malformed
    (malformed : ParamPath.parse? path = none) :
    describedBy names (earlier ++ [(path, text)]) =
      describedBy names earlier := by
  simp [describedBy, firstText?, textsFor_append_malformed malformed]

end Append

/-! ## The invariant of a run -/

theorem records_nil : Records [] [] where
  sorted := sorted_nil
  present names _ mentioned := by
    obtain ⟨path, text, parsed, member, _⟩ := mentioned
    simp at member
  absent names _ _ := by simp [descriptionAt?, find?_nil_tree]

namespace Records

variable {earlier : List (String × String)} {tree : ParamTree}

theorem join_descriptionAt? (records : Records earlier tree)
    {names : List String} (asked : names ≠ []) :
    (descriptionAt? names tree).join = describedBy names earlier := by
  by_cases mentioned : Mentioned names earlier
  · rw [records.present names asked mentioned, Option.join_some]
  · rw [records.absent names asked mentioned, describedBy,
      textsFor_eq_nil mentioned]
    rfl

theorem isSome_find? (records : Records earlier tree) {names : List String}
    (asked : names ≠ []) :
    (find? names tree).isSome ↔ Mentioned names earlier := by
  have known : (find? names tree).isSome =
      (descriptionAt? names tree).isSome := by
    rw [descriptionAt?, Option.isSome_map]
  rw [known]
  constructor
  · intro there
    apply Classical.byContradiction
    intro unmentioned
    simp [records.absent names asked unmentioned] at there
  · intro mentioned
    simp [records.present names asked mentioned]

theorem description_eq (records : Records earlier tree)
    {names : List String} {node : ParamNode}
    (found : find? names tree = some node) :
    node.description = describedBy names earlier := by
  have asked : names ≠ [] := by
    intro same
    subst same
    simp [find?] at found
  have said : descriptionAt? names tree = some node.description := by
    rw [descriptionAt?, found, Option.map_some]
  rw [← records.join_descriptionAt? asked, said, Option.join_some]

/-- The text that the tree holds for a sequence of names is the first one that
is not empty. -/
theorem text?_eq (records : Records earlier tree) {names : List String}
    (asked : names ≠ []) : text? names tree = firstText? names earlier := by
  have held : text? names tree =
      (descriptionAt? names tree).join.filter fun text => !text.isEmpty := by
    cases found : find? names tree with
    | none => simp [text?, descriptionAt?, found]
    | some node => simp [text?, descriptionAt?, found, ParamNode.text?]
  rw [held, records.join_descriptionAt? asked, describedBy]
  cases given : textsFor names earlier with
  | nil => simp [firstText?, given]
  | cons first rest =>
      cases found : firstText? names earlier with
      | none => simp
      | some text =>
          have chosen := List.find?_some found
          simpa using chosen

theorem describe (records : Records earlier tree) {path : String}
    {parsed : ParamPath} (read : ParamPath.parse? path = some parsed)
    (free : firstText? parsed.names earlier = none) (text : String) :
    Records (earlier ++ [(path, text)])
      (ParamTree.describe text parsed.names tree) where
  sorted := sorted_describe records.sorted text parsed.names
  present names asked mentioned := by
    rw [descriptionAt?_describe records.sorted text (names_ne_nil parsed) asked]
    by_cases same : names = parsed.names
    · subst same
      rw [if_pos rfl, describedBy_append_self read, free, Option.getD_none]
    · rw [if_neg same, describedBy_append_of_ne read same]
      by_cases leads : names <+: parsed.names
      · rw [if_pos leads, records.join_descriptionAt? asked]
      · have known : Mentioned names earlier :=
          ((mentioned_append read).mp mentioned).resolve_right leads
        rw [if_neg leads, records.present names asked known]
  absent names asked unmentioned := by
    have unknown : ¬ Mentioned names earlier := fun known =>
      unmentioned ((mentioned_append read).mpr (.inl known))
    have apart : ¬ names <+: parsed.names := fun leads =>
      unmentioned ((mentioned_append read).mpr (.inr leads))
    have different : names ≠ parsed.names := fun same =>
      apart (same ▸ List.prefix_rfl)
    rw [descriptionAt?_describe records.sorted text (names_ne_nil parsed) asked,
      if_neg different, if_neg apart, records.absent names asked unknown]

theorem repeated (records : Records earlier tree) {path : String}
    {parsed : ParamPath} (read : ParamPath.parse? path = some parsed)
    (taken : (firstText? parsed.names earlier).isSome) (text : String) :
    Records (earlier ++ [(path, text)]) tree := by
  obtain ⟨first, found⟩ := Option.isSome_iff_exists.mp taken
  -- The text was given by a path with these very names, so every sequence on
  -- the way to them was mentioned before.
  have known : Mentioned parsed.names earlier := by
    apply Classical.byContradiction
    intro unknown
    simp [firstText?, textsFor_eq_nil unknown] at found
  have shorter : ∀ names, names <+: parsed.names → Mentioned names earlier := by
    intro names leads
    obtain ⟨other, given, spelled, member, otherRead, reaches⟩ := known
    exact ⟨other, given, spelled, member, otherRead, leads.trans reaches⟩
  have mentions : ∀ names, Mentioned names (earlier ++ [(path, text)]) ↔
      Mentioned names earlier := fun names =>
    (mentioned_append read).trans ⟨Or.rec id (shorter names), .inl⟩
  constructor
  · exact records.sorted
  · intro names asked mentioned
    rw [records.present names asked ((mentions names).mp mentioned)]
    by_cases same : names = parsed.names
    · subst same
      rw [describedBy_append_self read, found, Option.getD_some, describedBy,
        found]
      cases given : textsFor parsed.names earlier with
      | nil => simp [firstText?, given] at found
      | cons text rest => rfl
    · rw [describedBy_append_of_ne read same]
  · intro names asked unmentioned
    exact records.absent names asked fun mentioned =>
      unmentioned ((mentions names).mpr mentioned)

theorem malformed (records : Records earlier tree) {path : String}
    (malformed : ParamPath.parse? path = none) (text : String) :
    Records (earlier ++ [(path, text)]) tree where
  sorted := records.sorted
  present names asked mentioned := by
    rw [describedBy_append_malformed malformed]
    exact records.present names asked
      ((mentioned_append_malformed malformed).mp mentioned)
  absent names asked unmentioned :=
    records.absent names asked fun mentioned =>
      unmentioned ((mentioned_append_malformed malformed).mpr mentioned)

/-- One annotation keeps the invariant, and its finding depends only on the
annotations before it. -/
theorem annotate (records : Records earlier tree) (unit path text : String) :
    Records (earlier ++ [(path, text)])
        (ParamTree.annotate unit tree path text).value ∧
      (ParamTree.annotate unit tree path text).findings =
        (stepFinding? unit earlier path).toList := by
  cases read : ParamPath.parse? path with
  | none =>
      simp only [ParamTree.annotate, stepFinding?, read]
      exact ⟨records.malformed read text, rfl⟩
  | some parsed =>
      have held := records.text?_eq (names_ne_nil parsed)
      cases first : firstText? parsed.names earlier with
      | none =>
          simp only [ParamTree.annotate, stepFinding?, read, held, first]
          exact ⟨records.describe read first text, rfl⟩
      | some given =>
          simp only [ParamTree.annotate, stepFinding?, read, held, first]
          exact ⟨records.repeated read (by simp [first]) text, rfl⟩

/-- A run keeps the invariant; each finding depends only on the annotations
before its step. -/
theorem annotateAll (records : Records earlier tree) (unit : String)
    (annotations : List (String × String)) :
    Records (earlier ++ annotations)
        (ParamTree.annotateAll unit tree annotations).value ∧
      (ParamTree.annotateAll unit tree annotations).findings =
        (annotations.zipIdx earlier.length).filterMap fun (step, place) =>
          stepFinding? unit ((earlier ++ annotations).take place) step.1 := by
  induction annotations generalizing earlier tree with
  | nil =>
      rw [List.append_nil]
      exact ⟨records, rfl⟩
  | cons step rest ih =>
      obtain ⟨path, text⟩ := step
      obtain ⟨kept, found⟩ := records.annotate unit path text
      obtain ⟨restKept, restFound⟩ := ih kept
      have regroup : earlier ++ [(path, text)] ++ rest =
          earlier ++ (path, text) :: rest := by simp
      rw [regroup] at restKept restFound
      refine ⟨restKept, ?_⟩
      simp only [ParamTree.annotateAll, Diagnosed.findings_bind, found,
        restFound, List.length_append, List.length_singleton, List.zipIdx_cons,
        List.filterMap_cons, List.take_left]
      cases stepFinding? unit earlier path with
      | none => rfl
      | some finding => rfl

end Records

theorem records_annotateAll (unit : String)
    (annotations : List (String × String)) :
    Records annotations (annotateAll unit [] annotations).value :=
  (records_nil.annotateAll unit annotations).1

theorem value_annotateAll_append (unit : String) (tree : ParamTree)
    (first second : List (String × String)) :
    (annotateAll unit tree (first ++ second)).value =
      (annotateAll unit (annotateAll unit tree first).value second).value := by
  induction first generalizing tree with
  | nil => rfl
  | cons step rest ih =>
      simpa [annotateAll] using ih (annotate unit tree step.1 step.2).value

theorem findings_annotateAll_append (unit : String) (tree : ParamTree)
    (first second : List (String × String)) :
    (annotateAll unit tree (first ++ second)).findings =
      (annotateAll unit tree first).findings ++
        (annotateAll unit (annotateAll unit tree first).value
          second).findings := by
  induction first generalizing tree with
  | nil => rfl
  | cons step rest ih =>
      simpa [annotateAll] using ih (annotate unit tree step.1 step.2).value

theorem level_stepFinding? {unit path : String}
    {earlier : List (String × String)} {finding : Finding}
    (found : stepFinding? unit earlier path = some finding) :
    finding.level = .warning := by
  unfold stepFinding? at found
  split at found
  · cases found
    rfl
  · split at found
    · cases found
      rfl
    · cases found

theorem findings_annotateAll (unit : String)
    (annotations : List (String × String)) :
    (annotateAll unit [] annotations).findings =
      annotations.zipIdx.filterMap fun (step, place) =>
        stepFinding? unit (annotations.take place) step.1 :=
  (records_nil.annotateAll unit annotations).2

/-- What a run of annotations leaves behind: nodes where well-formed paths lead
to or through, with the first text that is not empty, no trace of malformed
paths, and a warning for each of these and for each path whose names had a text
before. -/
theorem annotateAll_from_empty (unit : String)
    (annotations : List (String × String)) :
    (∀ names, names ≠ [] →
      ((find? names (annotateAll unit [] annotations).value).isSome ↔
        Mentioned names annotations)) ∧
    (∀ names node,
      find? names (annotateAll unit [] annotations).value = some node →
        node.description = describedBy names annotations) ∧
    (∀ path text, ParamPath.parse? path = none →
      (annotateAll unit [] (annotations ++ [(path, text)])).value =
        (annotateAll unit [] annotations).value) ∧
    ((annotateAll unit [] annotations).findings =
      annotations.zipIdx.filterMap fun (step, place) =>
        stepFinding? unit (annotations.take place) step.1) ∧
    ∀ collected : Diagnostics,
      collected.record (annotateAll unit [] annotations).findings =
        { collected with
          warnings := collected.warnings ++
            (annotateAll unit [] annotations).findings.map
              Finding.message } := by
  have records := records_annotateAll unit annotations
  refine ⟨fun names asked => records.isSome_find? asked,
    fun names node found => records.description_eq found, ?_,
    findings_annotateAll unit annotations, ?_⟩
  · intro path text malformed
    rw [value_annotateAll_append]
    simp [annotateAll, annotate, malformed]
  · intro collected
    apply Diagnostics.record_of_warnings
    intro finding member
    rw [findings_annotateAll] at member
    obtain ⟨_, _, found⟩ := List.mem_filterMap.mp member
    exact level_stepFinding? found

/-- Two spellings of one node: the empty text gives way to the first one that
is not empty, and the last annotation is a repetition. -/
theorem annotateAll_from_empty_items :
    let annotations := [("items[].id", ""), ("items[]x", "bad"),
      ("items.id", "number"), ("items[].id", "")]
    let run := annotateAll "order" [] annotations
    (find? ["items"] run.value).isSome ∧
      (∀ node, find? ["items", "id"] run.value = some node →
        node.description = some "number") ∧
      (annotateAll "order" [] (annotations ++ [("x.", "t")])).value =
        run.value ∧
      run.findings =
        [.malformedPath "items[]x" "order", .annotatedTwice "items[].id" "order"]
      := by
  intro annotations run
  have general := annotateAll_from_empty "order" annotations
  have mentioned : Mentioned ["items"] annotations :=
    ⟨"items.id", "number", ⟨[.field "items"], "id"⟩, by decide, by decide,
      by decide⟩
  refine ⟨(general.1 ["items"] (by decide)).mpr mentioned, ?_,
    general.2.2.1 "x." "t" (by decide), general.2.2.2.1.trans (by decide)⟩
  intro node found
  rw [general.2.1 _ node found]
  decide

end ParamTree

end TagDoc
