import TagDoc.Command.Run

/-!
# What a command reads

The files that a run reads depend on what earlier ones hold: the configuration
names the output directory with its page index and the sources' place, and the
registry names the handlers.  `Invocation.inputs` lists the paths as far as the
files at hand tell; with these files added, the next list is longer or the
same.
-/

namespace TagDoc.Invocation

variable {δ : Type}

def registryPath : Registry → String
  | .routes path => path
  | .tables path => path

def handlerSources (api : ApiConfig) (path text : String) : List String :=
  match registryOfText (Route.registry .text) path text with
  | .error _ => []
  | .ok routes =>
      routes.map fun route =>
        handlerPath api.sourceRoot route.key api.sourceExtension

/-- The sources that a registry names, as far as it can be read. -/
def sources (disk : Disk δ) (config : Config) (registry : Registry)
    (files : δ) : List String :=
  match registry with
  | .tables _ => []
  | .routes path =>
      match disk.read path files with
      | .error _ => []
      | .ok text => handlerSources config.api path text

def inputs (disk : Disk δ) (invocation : Invocation) (files : δ) :
    List String :=
  invocation.config ::
    match invocation.loadConfig disk files with
    | .error _ => []
    | .ok config =>
        FilePath.join config.output indexFile ::
          registryPath invocation.registry ::
            sources disk config invocation.registry files

end TagDoc.Invocation
