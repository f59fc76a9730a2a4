import TagDoc.FilePath

/-!
# The segments of paths

Slashes separate segments and stand in none of them, so the last segment of a
path ends as the path does.
-/

namespace TagDoc.FilePath

/-- A text without slashes, which is a single segment. -/
def Plain (text : String) : Prop :=
  '/' ∉ text.toList

instance (text : String) : Decidable (Plain text) :=
  inferInstanceAs (Decidable ('/' ∉ text.toList))

theorem segments_of_plain {text : String} (plain : Plain text) :
    segments text = [text] := by
  rw [segments, List.splitOn_eq_singleton plain]
  simp

theorem segments_slash (first second : String) :
    segments (first ++ "/" ++ second) = segments first ++ segments second := by
  have spelled : (first ++ "/" ++ second).toList =
      first.toList ++ '/' :: second.toList := by
    simp
  rw [segments, spelled, List.splitOn_append_cons_self, List.map_append]
  rfl

theorem not_mem_of_mem_splitOn {separator : Char} {text piece : List Char}
    (member : piece ∈ text.splitOn separator) : separator ∉ piece := by
  induction text generalizing piece with
  | nil =>
      rw [List.splitOn_nil, List.mem_singleton] at member
      subst member
      exact List.not_mem_nil
  | cons character rest ih =>
      rw [List.splitOn_cons_eq_if_modifyHead] at member
      split at member
      · rcases List.mem_cons.mp member with rfl | later
        · exact List.not_mem_nil
        · exact ih later
      · next different =>
          cases pieces : rest.splitOn separator with
          | nil => exact (List.splitOn_ne_nil _ _ pieces).elim
          | cons first others =>
              rw [pieces] at member
              rcases List.mem_cons.mp member with rfl | later
              · have head : separator ∉ first := ih (by rw [pieces]; simp)
                have new : separator ≠ character := by
                  intro same
                  subst same
                  exact different (beq_self_eq_true _)
                simpa [new] using head
              · exact ih (by rw [pieces]; exact List.mem_cons_of_mem _ later)

theorem plain_of_mem_segments {text segment : String}
    (member : segment ∈ segments text) : Plain segment := by
  obtain ⟨piece, split, rfl⟩ := List.mem_map.mp member
  rw [Plain, String.toList_ofList]
  exact not_mem_of_mem_splitOn split

theorem eq_intercalate_segments (text : String) :
    String.intercalate "/" (segments text) = text := by
  apply String.toList_injective
  rw [String.toList_intercalate, segments, List.map_map]
  have pieces : (String.toList ∘ String.ofList) = id := by
    funext characters
    simp
  rw [pieces, List.map_id]
  exact List.intercalate_splitOn '/'

/-- A text is plain, or plain after its last slash. -/
theorem plain_or_slash (text : String) :
    Plain text ∨ ∃ before last, Plain last ∧ text = before ++ "/" ++ last := by
  by_cases plain : Plain text
  · exact .inl plain
  · have member : '/' ∈ text.toList.reverse := by
      simpa [Plain] using plain
    obtain ⟨last, before, spelled, absent⟩ :=
      List.eq_append_cons_of_mem member
    refine .inr ⟨.ofList before.reverse, .ofList last.reverse, ?_, ?_⟩
    · simpa [Plain] using absent
    · apply String.toList_injective
      have turned := congrArg List.reverse spelled
      simpa using turned

theorem segments_append_plain (text : String) {suffix : String}
    (plain : Plain suffix) :
    ∃ above final, segments text = above ++ [final] ∧
      segments (text ++ suffix) = above ++ [final ++ suffix] := by
  have together {final : String} (alone : Plain final) :
      Plain (final ++ suffix) := by
    simpa [Plain] using not_or.mpr ⟨alone, plain⟩
  rcases plain_or_slash text with alone | ⟨before, last, alone, rfl⟩
  · exact ⟨[], text, segments_of_plain alone,
      segments_of_plain (together alone)⟩
  · refine ⟨segments before, last, ?_, ?_⟩
    · rw [segments_slash, segments_of_plain alone]
    · rw [String.append_assoc, segments_slash,
        segments_of_plain (together alone)]

theorem segments_join_plain (base : String) {name : String}
    (plain : Plain name) :
    ∃ above, segments (join base name) = above ++ [name] := by
  have relative : isAbsolute name = false := by
    cases spelled : name.toList with
    | nil => simp [isAbsolute, spelled]
    | cons first rest =>
        have other : first ≠ '/' := by
          intro same
          subst same
          exact plain (by rw [spelled]; exact List.mem_cons_self)
        simp [isAbsolute, spelled, other]
  have slash (before : String) : ∃ above,
      segments (before ++ "/" ++ name) = above ++ [name] :=
    ⟨segments before, by rw [segments_slash, segments_of_plain plain]⟩
  unfold join
  rw [relative, if_neg Bool.false_ne_true]
  by_cases ended : base.isEmpty || base.toList.getLast? == some '/'
  · rw [if_pos ended]
    rcases Bool.or_eq_true_iff.mp ended with empty | closing
    · rw [String.isEmpty_iff.mp empty, String.empty_append]
      exact ⟨[], segments_of_plain plain⟩
    · obtain ⟨before, spelled⟩ :=
        List.getLast?_eq_some_iff.mp (beq_iff_eq.mp closing)
      have whole : base = String.ofList before ++ "/" := by
        apply String.toList_injective
        simpa using spelled
      rw [whole]
      exact slash _
  · rw [if_neg ended]
    exact slash base

/-- The last segment of a joined path ends as the path does. -/
theorem segments_join_append (base path : String) {suffix : String}
    (plain : Plain suffix) :
    ∃ above final,
      segments (join base (path ++ suffix)) = above ++ [final ++ suffix] := by
  have ends (front : String) : ∃ above final,
      segments (front ++ (path ++ suffix)) = above ++ [final ++ suffix] := by
    obtain ⟨above, final, _, whole⟩ :=
      segments_append_plain (front ++ path) plain
    exact ⟨above, final, by rw [← String.append_assoc, whole]⟩
  unfold join
  split
  · simpa using ends ""
  · split
    · exact ends base
    · exact ends (base ++ "/")

end TagDoc.FilePath
