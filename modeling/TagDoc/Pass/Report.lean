import TagDoc.Page.Index
import TagDoc.Workspace

/-!
# What passes have in common

A pass documents its units in the order of the registry.  Pages are shown in
that order too: the first unit has the display order 2, and the index page
comes before all units with 1.  A unit that fails is left out of the index and
the pass goes on.
-/

namespace TagDoc

def indexOrder : Nat := 1

def firstUnitOrder : Nat := 2

/-- The outcome of a pass: the text of the index page, its entries, and the
number of units that could not be documented. -/
structure BuildReport where
  index : String
  entries : List IndexEntry
  failed : Nat
deriving DecidableEq, Repr

/-- The outcome of documenting one unit: its index entry if it succeeded, the
findings on the way, and the state after it. -/
structure UnitRun (σ : Type) where
  entry : Option IndexEntry
  findings : List Finding
  state : σ

structure UnitRuns (σ : Type) where
  entries : List IndexEntry
  failed : Nat
  findings : List Finding
  state : σ

/-- The outcome of a pass or of a part of it, with its findings and the state
after it. -/
structure PassRun (σ ρ : Type) where
  report : ρ
  findings : List Finding
  state : σ

variable {σ ρ α : Type}

/-- The collector after a pass.  Every pass clears it before its first
finding. -/
def PassRun.collect (run : PassRun σ ρ) (held : Diagnostics) : Diagnostics :=
  held.clear.record run.findings

/-- Document units one after the other; each has the next display order,
whether the units before it succeeded or not. -/
def runUnits (run : α → Nat → σ → UnitRun σ) :
    List α → Nat → σ → UnitRuns σ
  | [], _, state => ⟨[], 0, [], state⟩
  | unit :: rest, order, state =>
      let first := run unit order state
      let others := runUnits run rest (order + 1) first.state
      { entries := first.entry.toList ++ others.entries
        failed := (if first.entry.isSome then 0 else 1) + others.failed
        findings := first.findings ++ others.findings
        state := others.state }

/-- Save the index page of documented units and report. -/
def finishPass (space : Workspace σ) (nameHeader : String)
    (groups : List String) (directory name : String)
    (failure : Failure → Finding) (units : UnitRuns σ) :
    PassRun σ BuildReport :=
  let page := Page.ofIndex nameHeader groups units.entries
  let index := page.value.markdown
  let (saved, state) := space.save ⟨directory, name, index, indexOrder⟩ units.state
  let failures :=
    match saved with
    | .ok _ => []
    | .error cause => [failure cause]
  { report := ⟨index, units.entries, units.failed⟩
    findings := units.findings ++ page.findings ++ failures
    state }

end TagDoc
