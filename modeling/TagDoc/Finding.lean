import TagDoc.Diagnostics
import TagDoc.Failure

/-!
# What documentation passes find

Each problem that a pass can report is a `Finding`.  Its level and its text
are fixed here, so that the other modules speak of findings and never of
message texts.  `Diagnosed` pairs a result with the findings made on the way
to it, in the order in which they were made.
-/

namespace TagDoc

/-- A reportable problem.  `unit` names the documented source or table. -/
inductive Finding where
  /-- An annotation path outside the path grammar. -/
  | malformedPath (path unit : String)
  /-- A parameter that already has a text is annotated again. -/
  | annotatedTwice (path unit : String)
  /-- An array whose element schema is not declared. -/
  | untypedArray (name unit : String)
  /-- An object property without annotation. -/
  | undocumentedProperty (name unit : String)
  /-- A declared parameter with the name of a special one. -/
  | shadowedParameter (name unit : String)
  /-- A declared parameter without annotation. -/
  | undocumentedParameter (name unit : String)
  /-- A handler without any return entry. -/
  | undocumentedReturn (unit : String)
  /-- A table reference that is not a database and a table. -/
  | malformedTableReference (reference unit : String)
  /-- A group outside the canonical list, and the entries in it. -/
  | unindexedGroup (group : String) (names : List String)
  /-- Entries of different names with one description. -/
  | sharedDescription (description : String) (names : List String)
  /-- A table without comment. -/
  | uncommentedTable (unit : String)
  /-- A column without comment. -/
  | uncommentedColumn (unit column : String)
  /-- A handler source without a doc block. -/
  | missingComment (unit : String)
  /-- A route that could not be documented. -/
  | routeFailure (path : String) (failure : Failure)
  /-- A table page that could not be saved. -/
  | tableFailure (unit : String) (failure : Failure)
  /-- The index page of the routes could not be saved. -/
  | routeIndexFailure (name : String) (failure : Failure)
  /-- The index page of a database could not be saved. -/
  | tableIndexFailure (database : String) (failure : Failure)
  /-- A database of the registry that the configuration leaves out. -/
  | unconfiguredDatabase (database : String)
deriving DecidableEq, Repr

namespace Finding

def level : Finding → Level
  | .malformedPath .. | .annotatedTwice .. | .untypedArray ..
  | .undocumentedProperty .. | .shadowedParameter ..
  | .undocumentedParameter .. | .malformedTableReference ..
  | .unindexedGroup .. => .warning
  | .undocumentedReturn .. | .sharedDescription .. | .uncommentedTable ..
  | .uncommentedColumn .. | .missingComment .. | .routeFailure ..
  | .tableFailure .. | .routeIndexFailure .. | .tableIndexFailure .. => .error
  | .unconfiguredDatabase .. => .info

def message : Finding → String
  | .malformedPath path unit =>
      "- non-conforming annotation path (" ++ path ++ "): " ++ unit
  | .annotatedTwice path unit =>
      "- duplicate annotation for parameter (" ++ path ++ "): " ++ unit
  | .untypedArray name unit =>
      "- array parameter missing element type annotation (" ++ name ++ "): " ++
        unit
  | .undocumentedProperty name unit =>
      "- object property missing annotation (" ++ name ++ "): " ++ unit
  | .shadowedParameter name unit =>
      "- parameter shadows a special parameter (" ++ name ++ "): " ++ unit
  | .undocumentedParameter name unit =>
      "- parameter missing annotation (" ++ name ++ "): " ++ unit
  | .undocumentedReturn unit => "* return value undocumented: " ++ unit
  | .malformedTableReference reference unit =>
      "* malformed table reference (" ++ reference ++ "): " ++ unit
  | .unindexedGroup group names =>
      "* unindexed group [" ++ group ++ "]: " ++ String.intercalate "," names
  | .sharedDescription description names =>
      "* duplicate description \"" ++ description ++ "\": " ++
        String.intercalate ", " names
  | .uncommentedTable unit => "* table [" ++ unit ++ "] has no comment"
  | .uncommentedColumn unit column =>
      "* column [" ++ unit ++ "." ++ column ++ "] has no comment"
  | .missingComment unit => "* handler has no doc comment: " ++ unit
  | .routeFailure path failure =>
      "* failed to document " ++ path ++ ": " ++ failure.message
  | .tableFailure unit failure =>
      "* failed to save table " ++ unit ++ ": " ++ failure.message
  | .routeIndexFailure name failure =>
      "* failed to save index " ++ name ++ ": " ++ failure.message
  | .tableIndexFailure database failure =>
      "* failed to save index for " ++ database ++ ": " ++ failure.message
  | .unconfiguredDatabase database =>
      "* database " ++ database ++ " is not configured, skipped"

def diagnostic (finding : Finding) : Diagnostic :=
  ⟨finding.level, finding.message⟩

end Finding

/-- Collect findings in order. -/
def Diagnostics.record (collected : Diagnostics) (findings : List Finding) :
    Diagnostics :=
  collected.addAll (findings.map Finding.diagnostic)

/-- A result and the findings made on the way to it. -/
structure Diagnosed (α : Type) where
  value : α
  findings : List Finding

namespace Diagnosed

variable {α β γ : Type}

def clean (value : α) : Diagnosed α := ⟨value, []⟩

/-- Go on with the result; later findings come after earlier ones. -/
def andThen (first : Diagnosed α) (next : α → Diagnosed β) : Diagnosed β :=
  let second := next first.value
  ⟨second.value, first.findings ++ second.findings⟩

def map (change : α → β) (diagnosed : Diagnosed α) : Diagnosed β :=
  ⟨change diagnosed.value, diagnosed.findings⟩

def report (findings : List Finding) : Diagnosed Unit := ⟨(), findings⟩

theorem ext {first second : Diagnosed α}
    (values : first.value = second.value)
    (findings : first.findings = second.findings) : first = second := by
  cases first
  cases second
  rw [Diagnosed.mk.injEq]
  exact ⟨values, findings⟩

instance : Monad Diagnosed where
  pure := clean
  bind := andThen
  map := map

@[simp]
theorem value_pure (value : α) :
    (pure value : Diagnosed α).value = value := rfl

@[simp]
theorem findings_pure (value : α) :
    (pure value : Diagnosed α).findings = [] := rfl

@[simp]
theorem value_bind (first : Diagnosed α) (next : α → Diagnosed β) :
    (first >>= next).value = (next first.value).value := rfl

@[simp]
theorem findings_bind (first : Diagnosed α) (next : α → Diagnosed β) :
    (first >>= next).findings =
      first.findings ++ (next first.value).findings := rfl

end Diagnosed

end TagDoc
