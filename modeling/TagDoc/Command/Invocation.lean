import TagDoc.Text

/-!
# Command lines

A command line names a command with its registry, and settings that may stand
before or after the command: where the configuration is, where pages go, and
the two switches.  Each of them may be given once on either side; a value given
after the command counts more than one before it.  A value stands behind its
option, joined to it or as the next word, which then must not look like an
option.
-/

namespace TagDoc

/-- What is documented, and the path of its registry. -/
inductive Registry where
  | routes (path : String)
  | tables (path : String)
deriving DecidableEq, Repr

structure Invocation where
  config : String
  output : Option String
  dryRun : Bool
  strict : Bool
  registry : Registry
deriving DecidableEq, Repr

/-- Why a command line gives no invocation: it asks for help, or it is not
understood. -/
inductive Refusal where
  | help
  | misuse
deriving DecidableEq, Repr

/-- The configuration file that is read unless another one is named. -/
def defaultConfig : String := "apidoc.toml"

namespace Invocation

inductive Setting where
  | config
  | output
  | registry
deriving DecidableEq, Repr

inductive Switch where
  | dryRun
  | strict
deriving DecidableEq, Repr

inductive Word where
  | setting (setting : Setting) (joined : Option String)
  | switch (switch : Switch)
  | help
  | plain (text : String)
  | other
deriving DecidableEq, Repr

/-- An option with a long name.  The registry has its own name, where there is
one. -/
def ofLongName (registryName : Option String) (name : String)
    (joined : Option String) : Word :=
  if name == "config" then .setting .config joined
  else if name == "output" then .setting .output joined
  else if some name == registryName then .setting .registry joined
  else
    match joined, name with
    | none, "dry-run" => .switch .dryRun
    | none, "only-test" => .switch .dryRun
    | none, "strict" => .switch .strict
    | none, "help" => .help
    | _, _ => .other

/-- The value that is joined to a short option, an equals sign between. -/
def joinedValue : List Char → Option String
  | [] => none
  | '=' :: rest => some (String.ofList rest)
  | text => some (String.ofList text)

def readWord (registryName : Option String) (word : String) : Word :=
  match word.toList with
  | '-' :: '-' :: name =>
      match Text.splitAtFirst (· == '=') name with
      | some (name, value) =>
          ofLongName registryName (String.ofList name)
            (some (String.ofList value))
      | none => ofLongName registryName (String.ofList name) none
  | '-' :: 'c' :: rest => .setting .config (joinedValue rest)
  | '-' :: 'o' :: rest => .setting .output (joinedValue rest)
  | '-' :: 'h' :: _ => .help
  | ['-'] => .plain word
  | '-' :: _ => .other
  | _ => .plain word

def isValue (word : String) : Bool :=
  word == "-" || word.toList.head? != some '-'

/-- The settings given on one side of the command. -/
structure Settings where
  config : Option String := none
  output : Option String := none
  registry : Option String := none
  dryRun : Bool := false
  strict : Bool := false

namespace Settings

/-- A value for an option that has none yet; a value is not empty. -/
def once (given : Option String) (value : String) :
    Except Refusal (Option String) :=
  if given.isSome || value.isEmpty then .error .misuse else .ok (some value)

def set (settings : Settings) (setting : Setting) (value : String) :
    Except Refusal Settings := do
  match setting with
  | .config =>
      let config ← once settings.config value
      .ok { settings with config }
  | .output =>
      let output ← once settings.output value
      .ok { settings with output }
  | .registry =>
      let registry ← once settings.registry value
      .ok { settings with registry }

/-- Turn a switch on that is still off. -/
def turnOn (settings : Settings) : Switch → Except Refusal Settings
  | .dryRun =>
      if settings.dryRun then .error .misuse
      else .ok { settings with dryRun := true }
  | .strict =>
      if settings.strict then .error .misuse
      else .ok { settings with strict := true }

end Settings

/-- Read the options up to the first plain word, which is given with the words
after it. -/
def readSettings (registryName : Option String) :
    Settings → List String →
      Except Refusal (Settings × Option (String × List String))
  | settings, [] => .ok (settings, none)
  | settings, word :: rest =>
      match readWord registryName word with
      | .switch switch => do
          let settings ← settings.turnOn switch
          readSettings registryName settings rest
      | .setting setting (some value) => do
          let settings ← settings.set setting value
          readSettings registryName settings rest
      | .setting setting none =>
          match rest with
          | value :: rest =>
              if isValue value then do
                let settings ← settings.set setting value
                readSettings registryName settings rest
              else .error .misuse
          | [] => .error .misuse
      | .help => .error .help
      | .plain text => .ok (settings, some (text, rest))
      | .other =>
          if word == "--" && rest.isEmpty then .ok (settings, none)
          else .error .misuse

/-- A command by its name: the option of its registry, and what it
documents. -/
def command? : String → Option (String × (String → Registry))
  | "api" => some ("routes", .routes)
  | "db" => some ("tables", .tables)
  | _ => none

/-- The invocation that settings before and after the command make. -/
def combine (before after : Settings) (registry : Registry) : Invocation where
  config := (after.config.or before.config).getD defaultConfig
  output := after.output.or before.output
  dryRun := before.dryRun || after.dryRun
  strict := before.strict || after.strict
  registry := registry

/-- Read the words after a command. -/
def readCommand (before : Settings) (option : String)
    (registry : String → Registry) (words : List String) :
    Except Refusal Invocation := do
  let (after, extra) ← readSettings (some option) {} words
  match extra, after.registry with
  | none, some path => .ok (combine before after (registry path))
  | _, _ => .error .misuse

/-- What the command `help` gives: help for a command, or for the program.  It
knows no other topics. -/
def helpOn : List String → Refusal
  | [] => .help
  | [topic] =>
      if topic == "help" || (command? topic).isSome then .help else .misuse
  | _ => .misuse

def ofWords (words : List String) : Except Refusal Invocation := do
  let (before, command) ← readSettings none {} words
  match command with
  | some ("help", topics) => .error (helpOn topics)
  | some (name, rest) =>
      match command? name with
      | some (option, registry) => readCommand before option registry rest
      | none => .error .misuse
  | none => .error .misuse

end Invocation

end TagDoc
