import TagDoc.Command.Invocation
import TagDoc.Pass.Api
import TagDoc.Pass.Database
import TagDoc.Store.Disk
import TagDoc.Store.Memory

/-!
# Running a command

A command loads the configuration, documents its registry into the output
directory, or only into memory for a dry run, and reports what was found.  A
dry run prints the index pages that would have been written.  A failure ends
the run at once; findings do not, but under `strict` the run fails when one of
them is an error.
-/

namespace TagDoc

/-- The result of a run: its exit code and what it printed. -/
structure Outcome where
  code : Nat
  stdout : String := ""
  stderr : String := ""
deriving DecidableEq, Repr

def Outcome.ofFailure (failure : Failure) : Outcome :=
  { code := 1, stderr := "Error: " ++ failure.attempt ++ "\n" }

def usage : String :=
  "Usage: tagdoc [OPTIONS] <COMMAND>\n\n" ++
    "Commands:\n" ++
    "  api --routes <FILE>   Document the handlers of a route registry\n" ++
    "  db --tables <FILE>    Document the tables of a table registry\n\n" ++
    "Options:\n" ++
    "  -c, --config <FILE>   Configuration file [default: apidoc.toml]\n" ++
    "  -o, --output <DIR>    Output directory\n" ++
    "      --dry-run         Print the index and write nothing\n" ++
    "      --strict          Fail when an error was found\n" ++
    "  -h, --help            Print this help\n"

def Outcome.ofRefusal : Refusal → Outcome
  | .help => { code := 0, stdout := usage }
  | .misuse => { code := 2, stderr := usage }

namespace Invocation

variable {σ δ : Type}

/-- The registry that the text of a file holds. -/
def registryOfText {α : Type} (decoder : Json.Decoder α) (path text : String) :
    Except Failure α :=
  ((Json.Document.ofText text).decode decoder).mapError fun _ =>
    .invalidRegistry path

def readRegistry {α : Type} (space : Workspace σ) (decoder : Json.Decoder α)
    (path : String) (state : σ) : Except Failure α := do
  let text ← space.readSource path state
  registryOfText decoder path text

/-- Document a registry.  The report is the text of all index pages. -/
def document (space : Workspace σ) (config : Config) (registry : Registry)
    (state : σ) : Except Failure (PassRun σ String) :=
  match registry with
  | .routes path => do
      let routes ← readRegistry space (Route.registry .text) path state
      let run := apiPass space config routes state
      .ok { run with report := run.report.index }
  | .tables path => do
      let tables ← readRegistry space (TableSchema.registry .text) path state
      let run := registryPass space config tables state
      .ok
        { run with
          report := String.join (run.report.map fun (_, report) => report.index) }

/-- The result of a run that leaves the given messages. -/
def conclude (invocation : Invocation) (colored : Bool) (stdout : String)
    (collected : Diagnostics) : Outcome :=
  let errors := collected.errors.length
  let (report, _) := collected.report colored
  if invocation.strict && 0 < errors then
    { code := 1, stdout
      stderr :=
        report ++ "Error: " ++ toString errors ++ " documentation error(s)\n" }
  else { code := 0, stdout, stderr := report }

/-- Document into memory and print the index pages. -/
def dryRunOn (disk : Disk δ) (colored : Bool) (invocation : Invocation)
    (config : Config) (files : δ) : Outcome :=
  let store : MemoryStore := { baseUrl := config.baseUrl }
  match document (MemoryStore.workspace disk) config invocation.registry
      (store, files) with
  | .error failure => .ofFailure failure
  | .ok run => invocation.conclude colored run.report (run.collect .empty)

/-- Document into the output directory. -/
def publishOn (disk : Disk δ) (colored : Bool) (invocation : Invocation)
    (config : Config) (files : δ) : Outcome × δ :=
  match DiskStore.load disk config.output config.baseUrl files with
  | (.error failure, files) => (.ofFailure failure, files)
  | (.ok store, files) =>
      match document (DiskStore.workspace disk) config invocation.registry
          (store, files) with
      | .error failure => (.ofFailure failure, files)
      | .ok run =>
          (invocation.conclude colored "" (run.collect .empty), run.state.2)

def loadConfig (disk : Disk δ) (invocation : Invocation) (files : δ) :
    Except Failure Config := do
  let config ← Config.load (fun path => disk.read path files) invocation.config
  .ok { config with output := invocation.output.getD config.output }

def runOn (disk : Disk δ) (colored : Bool) (invocation : Invocation)
    (files : δ) : Outcome × δ :=
  match invocation.loadConfig disk files with
  | .error failure => (.ofFailure failure, files)
  | .ok config =>
      if invocation.dryRun then
        (invocation.dryRunOn disk colored config files, files)
      else invocation.publishOn disk colored config files

end Invocation

def runCommand {δ : Type} (disk : Disk δ) (colored : Bool)
    (words : List String) (files : δ) : Outcome × δ :=
  match Invocation.ofWords words with
  | .error refusal => (.ofRefusal refusal, files)
  | .ok invocation => invocation.runOn disk colored files

end TagDoc
