import TagDoc.Failure
import TagDoc.Route
import TagDoc.Toml.Document

/-!
# Configuration

What the passes need to know besides the registries: where sources are found,
where pages go, the canonical groups of the index pages, and the parameters
that every route of a class receives without declaring them.
-/

namespace TagDoc

/-- A parameter that all routes of a class of callers receive. -/
structure ImplicitParam where
  name : String := ""
  type : String := "string"
  description : String := ""
  access : Access := .everyone
deriving DecidableEq, Repr

structure ApiConfig where
  sourceRoot : String := "."
  sourceExtension : String := "js"
  docPath : String := "api"
  indexPath : String := "api"
  indexName : String := "接口索引"
  groups : List String := []
  specialParamNames : List String := []
  implicitParams : List ImplicitParam := []
deriving DecidableEq, Repr

structure DbConfig where
  path : String := ""
  groups : List String := []
  indexName : String := "索引"
deriving DecidableEq, Repr

/-- The configuration.  Without a base URL pages get relative URLs. -/
structure Config where
  baseUrl : Option String := none
  output : String := "docs"
  api : ApiConfig := {}
  db : Assoc DbConfig := []
deriving DecidableEq, Repr

def Config.dbPath? (config : Config) (database : String) : Option String :=
  (Assoc.get? database config.db).map DbConfig.path

/-! ## Decoding -/

open Json.Decoder

def ImplicitParam.decoder (dialect : Dialect) : Json.Decoder ImplicitParam :=
  record dialect
    [ .needed "name" text fun value param => { param with name := value },
      .spare "type" text fun value param => { param with type := value },
      .needed "desc" text fun value param => { param with description := value },
      .needed "when" (choice dialect Access.ofName?) fun value param =>
        { param with access := value } ]
    {}

def ApiConfig.decoder (dialect : Dialect) : Json.Decoder ApiConfig :=
  record dialect
    [ .spare "source_root" text fun value api =>
        { api with sourceRoot := value },
      .spare "source_ext" text fun value api =>
        { api with sourceExtension := value },
      .spare "doc_path" text fun value api => { api with docPath := value },
      .spare "index_path" text fun value api => { api with indexPath := value },
      .spare "index_name" text fun value api => { api with indexName := value },
      .spare "groups" (list text) fun value api => { api with groups := value },
      .spare "special_param_names" (list text) fun value api =>
        { api with specialParamNames := value },
      .spare "implicit_params" (list (ImplicitParam.decoder dialect))
        fun value api => { api with implicitParams := value } ]
    {}

def DbConfig.decoder (dialect : Dialect) : Json.Decoder DbConfig :=
  record dialect
    [ .needed "path" text fun value db => { db with path := value },
      .spare "groups" (list text) fun value db => { db with groups := value },
      .spare "index_name" text fun value db => { db with indexName := value } ]
    {}

def Config.decoder (dialect : Dialect) : Json.Decoder Config :=
  record dialect
    [ .spare "base_url" (optional text) fun value config =>
        { config with baseUrl := value },
      .spare "output" text fun value config => { config with output := value },
      .spare "api" (ApiConfig.decoder dialect) fun value config =>
        { config with api := value },
      .spare "db" (assoc (DbConfig.decoder dialect)) fun value config =>
        { config with db := value } ]
    {}

/-! ## Configuration files -/

def Config.ofToml (text : String) : Except Failure Config :=
  match Toml.ofText? text with
  | none => .error .invalidConfig
  | some draft =>
      match Config.decoder Toml.dialect draft with
      | .ok config => .ok config
      | .error _ => .error .invalidConfig

/-- The configuration of a file at `path` with the given text.  A relative
source root is taken from the directory of the file. -/
def Config.ofFile (path text : String) : Except Failure Config :=
  match Config.ofToml text with
  | .error _ => .error (.invalidConfigIn path)
  | .ok config =>
      match FilePath.parent? path with
      | none => .ok config
      | some directory =>
          let sourceRoot := FilePath.join directory config.api.sourceRoot
          .ok { config with api := { config.api with sourceRoot } }

/-- The configuration at a path, where `read` gives the texts of files. -/
def Config.load (read : String → Except FileError String) (path : String) :
    Except Failure Config :=
  match read path with
  | .error cause => .error (.readConfig path cause)
  | .ok text => Config.ofFile path text

end TagDoc
