/-!
# Levelled messages and their collector

A pass collects messages in three lists, one for each level, and hands them
out level by level.  Handing out empties the collector, so that a level that
is named twice in an order gives its messages at its first place only.
-/

namespace TagDoc

inductive Level where
  | error
  | warning
  | info
deriving DecidableEq, Repr

/-- All levels, the most severe first. -/
def Level.severityOrder : List Level := [.error, .warning, .info]

structure Diagnostic where
  level : Level
  message : String
deriving DecidableEq, Repr

/-- The messages collected and not yet handed out, each list in the order of
arrival. -/
@[ext]
structure Diagnostics where
  errors : List String := []
  warnings : List String := []
  infos : List String := []
deriving DecidableEq, Repr

namespace Diagnostics

def empty : Diagnostics := {}

def messages (collected : Diagnostics) : Level → List String
  | .error => collected.errors
  | .warning => collected.warnings
  | .info => collected.infos

def add (collected : Diagnostics) (diagnostic : Diagnostic) : Diagnostics :=
  match diagnostic.level with
  | .error =>
      { collected with errors := collected.errors ++ [diagnostic.message] }
  | .warning =>
      { collected with warnings := collected.warnings ++ [diagnostic.message] }
  | .info =>
      { collected with infos := collected.infos ++ [diagnostic.message] }

def addAll (collected : Diagnostics) (diagnostics : List Diagnostic) :
    Diagnostics :=
  diagnostics.foldl add collected

def size (collected : Diagnostics) : Nat :=
  collected.errors.length + collected.warnings.length +
    collected.infos.length

def isEmpty (collected : Diagnostics) : Bool :=
  collected.size == 0

def hasErrors (collected : Diagnostics) : Bool :=
  !collected.errors.isEmpty

def discard (collected : Diagnostics) : Level → Diagnostics
  | .error => { collected with errors := [] }
  | .warning => { collected with warnings := [] }
  | .info => { collected with infos := [] }

/-- Drop everything collected so far. -/
def clear (collected : Diagnostics) : Diagnostics :=
  Level.severityOrder.foldl discard collected

/-- Hand out the messages of the given levels, one level after the other. -/
def drain : List Level → Diagnostics → List Diagnostic × Diagnostics
  | [], collected => ([], collected)
  | level :: rest, collected =>
      let here := (collected.messages level).map (Diagnostic.mk level)
      let (later, remaining) := drain rest (collected.discard level)
      (here ++ later, remaining)

/-- Hand out all messages: first the levels of `order`, then the others, the
most severe first. -/
def flushIn (order : List Level) (collected : Diagnostics) :
    List Diagnostic × Diagnostics :=
  let others := Level.severityOrder.filter fun level => !order.contains level
  drain (order ++ others) collected

/-- Hand out all messages, the most severe first. -/
def flush (collected : Diagnostics) : List Diagnostic × Diagnostics :=
  collected.flushIn Level.severityOrder

end Diagnostics

/-! ## Reports -/

/-- The terminal sequence that selects the color of a level. -/
def Level.color : Level → String
  | .error => "\x1b[31m"
  | .warning => "\x1b[33m"
  | .info => "\x1b[32m"

def resetColor : String := "\x1b[0m"

/-- A text in which each return to the terminal's own color is followed by
`color`. -/
def recolor (color : List Char) : List Char → List Char
  | '\x1b' :: '[' :: '0' :: 'm' :: rest =>
      resetColor.toList ++ color ++ recolor color rest
  | character :: rest => character :: recolor color rest
  | [] => []

/-- A message in the color of its level, also where it returns to the terminal's
own color inside. -/
def Diagnostic.colored (diagnostic : Diagnostic) : String :=
  let color := diagnostic.level.color
  color ++ String.ofList (recolor color.toList diagnostic.message.toList) ++
    resetColor

def Diagnostic.line (colored : Bool) (diagnostic : Diagnostic) : String :=
  (if colored then diagnostic.colored else diagnostic.message) ++ "\n"

/-- A place for texts, which takes a text in or fails. -/
structure Writer (ω ε : Type) where
  write : String → ω → Except ε Unit × ω

namespace Writer

variable {ω ε : Type}

/-- Write texts one after the other, and stop at the first failure. -/
def writeAll (writer : Writer ω ε) : List String → ω → Except ε Unit × ω
  | [], out => (.ok (), out)
  | text :: rest, out =>
      match writer.write text out with
      | (.ok (), out) => writer.writeAll rest out
      | (.error failure, out) => (.error failure, out)

/-- A text as a place for texts, which never fails. -/
def buffer : Writer String Empty where
  write text out := (.ok (), out ++ text)

end Writer

namespace Diagnostics

/-- Hand out all messages and write a line for each.  The collector is empty
after it, also if not all lines could be written. -/
def reportTo {ω ε : Type} (writer : Writer ω ε) (colored : Bool) (out : ω)
    (collected : Diagnostics) : (Except ε Unit × ω) × Diagnostics :=
  let (diagnostics, remaining) := collected.flush
  (writer.writeAll (diagnostics.map (Diagnostic.line colored)) out, remaining)

/-- Hand out all messages as a report with a line for each. -/
def report (colored : Bool) (collected : Diagnostics) : String × Diagnostics :=
  let ((_, text), remaining) := collected.reportTo .buffer colored ""
  (text, remaining)

end Diagnostics

end TagDoc
