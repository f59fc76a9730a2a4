import TagDoc.Command.Inputs

/-!
# The program

The program runs its command line on a file system that holds what the machine
has at the paths of interest, and then makes the same changes on the machine.
Each run tells which further paths matter; when there are none, its result
stands.
-/

namespace TagDoc

/-- What the machine has at a path. -/
def lookAt (path : String) : IO (Option FileEntry) := do
  try
    let bytes ← IO.FS.readBinFile path
    return some (.file (.ofBytes bytes.toList))
  catch
    | .inappropriateType .. => return some (.directory [])
    | _ => return none

/-- Install what the machine has along a way. -/
def installAlong (files : FileSystem) : List String → IO FileSystem
  | [] => return files
  | station :: rest => do
      match ← lookAt station with
      | none => return files
      | some (.file content) => return files.install station (.file content)
      | some (.directory entries) =>
          installAlong (files.install station (.directory entries)) rest

/-- Run a command line until all paths of interest are known. -/
partial def settle (colored : Bool) (words : List String) (files : FileSystem)
    (known : List String) : IO (Outcome × Trace) := do
  let (outcome, _, trace) :=
    runCommand FileSystem.disk.traced colored words (files, {})
  let inputs :=
    match Invocation.ofWords words with
    | .error _ => []
    | .ok invocation => invocation.inputs FileSystem.disk files
  let fresh := (inputs ++ trace.touched).eraseDups.filter fun path =>
    !known.contains path
  if fresh.isEmpty then return (outcome, trace)
  let files ← fresh.foldlM
    (fun files path => installAlong files (FilePath.stations path)) files
  settle colored words files (fresh ++ known)

def publish (trace : Trace) : IO Unit := do
  for directory in trace.created do
    unless directory.isEmpty do IO.FS.createDirAll directory
  for (path, text) in trace.written do
    IO.FS.writeFile path text

/-- Whether reports are colored.  The environment may force colors, or refuse
them; else they go to terminals only. -/
def wantsColor (forced refused allowed : Option String) (terminal : Bool) :
    Bool :=
  if (forced.map (· != "0")).getD false then true
  else if refused.isSome then false
  else (allowed.map (· != "0")).getD true && terminal

end TagDoc

open TagDoc in
def main (words : List String) : IO UInt32 := do
  let colored := wantsColor (← IO.getEnv "CLICOLOR_FORCE")
    (← IO.getEnv "NO_COLOR") (← IO.getEnv "CLICOLOR")
    (← (← IO.getStdout).isTty)
  let here := FilePath.namedSegments (← IO.currentDir).toString
  let (outcome, trace) ← settle colored words (FileSystem.startingIn here) []
  publish trace
  IO.print outcome.stdout
  IO.eprint outcome.stderr
  return UInt32.ofNat outcome.code
