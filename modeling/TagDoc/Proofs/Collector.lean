import TagDoc.Pass.Report

/-!
# What a collector holds

A collector keeps the messages of each level in the order of arrival, after
those it held before.  `messages_record` says so for findings of any levels;
`record_of_warnings` is the form for findings that are warnings only.  A pass
starts from a cleared collector, so it leaves its own findings and no others:
`PassRun.messages_collect`.
-/

namespace TagDoc

namespace Diagnostics

theorem messages_add (collected : Diagnostics) (diagnostic : Diagnostic)
    (level : Level) :
    (collected.add diagnostic).messages level =
      collected.messages level ++
        if diagnostic.level = level then [diagnostic.message] else [] := by
  obtain ⟨own, message⟩ := diagnostic
  cases own <;> cases level <;> simp [add, messages]

theorem messages_record (collected : Diagnostics) (findings : List Finding)
    (level : Level) :
    (collected.record findings).messages level =
      collected.messages level ++
        (findings.filter fun finding => finding.level = level).map
          Finding.message := by
  induction findings generalizing collected with
  | nil => simp [record, addAll]
  | cons finding rest ih =>
      have first := messages_add collected finding.diagnostic level
      have step : collected.record (finding :: rest) =
          (collected.add finding.diagnostic).record rest := rfl
      rw [step, ih, first]
      by_cases same : finding.level = level
      · simp [Finding.diagnostic, same]
      · simp [Finding.diagnostic, same]

theorem record_append (collected : Diagnostics)
    (earlier later : List Finding) :
    collected.record (earlier ++ later) =
      (collected.record earlier).record later := by
  simp [record, addAll]

theorem record_of_warnings (collected : Diagnostics) {findings : List Finding}
    (warnings : ∀ finding ∈ findings, finding.level = .warning) :
    collected.record findings =
      { collected with
        warnings := collected.warnings ++ findings.map Finding.message } := by
  induction findings generalizing collected with
  | nil => simp [record, addAll]
  | cons finding rest ih =>
      have first : finding.level = .warning :=
        warnings finding List.mem_cons_self
      have later := ih (collected.add finding.diagnostic) fun other member =>
        warnings other (List.mem_cons_of_mem _ member)
      have step : collected.record (finding :: rest) =
          (collected.add finding.diagnostic).record rest := rfl
      rw [step, later]
      simp [add, Finding.diagnostic, first]

theorem clear_eq (collected : Diagnostics) :
    collected.clear = Diagnostics.empty := rfl

end Diagnostics

/-- After a pass the collector holds the findings of the pass and nothing from
before. -/
theorem PassRun.messages_collect {σ ρ : Type} (run : PassRun σ ρ)
    (held : Diagnostics) (level : Level) :
    (run.collect held).messages level =
      (run.findings.filter fun finding => finding.level = level).map
        Finding.message := by
  rw [PassRun.collect, Diagnostics.messages_record, Diagnostics.clear_eq]
  cases level with
  | error => rfl
  | warning => rfl
  | info => rfl

theorem PassRun.messages_collect_diagnostic {σ ρ : Type} (run : PassRun σ ρ)
    (held : Diagnostics) (level : Level) :
    (run.collect held).messages level =
      ((run.findings.map Finding.diagnostic).filter fun diagnostic =>
        diagnostic.level = level).map Diagnostic.message := by
  rw [run.messages_collect, List.filter_map, List.map_map]
  rfl

end TagDoc
