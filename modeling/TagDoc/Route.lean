import TagDoc.FilePath
import TagDoc.ParamSchema

/-!
# The route registry

A route names its handler, the path it answers on, the parameters it declares
and who may call it.  `Route.access` sorts routes into classes of callers: a
route for internal servers is of that class alone, every other one is open to
everyone and, when it asks for a login, to logged-in users as well.
-/

namespace TagDoc

structure AuthRule where
  check : Bool := false
  rule : Option String := none
deriving DecidableEq, Repr

inductive RpcSources where
  | one (source : String)
  | many (sources : List String)
deriving DecidableEq, Repr

def RpcSources.joined : RpcSources → String
  | .one source => source
  | .many sources => String.intercalate "，" sources

inductive Access where
  | everyone
  | internal
  | loggedIn
deriving DecidableEq, Repr

def Access.name : Access → String
  | .everyone => "public"
  | .internal => "rpc"
  | .loggedIn => "auth"

def Access.ofName? : String → Option Access
  | "public" => some .everyone
  | "rpc" => some .internal
  | "auth" => some .loggedIn
  | _ => none

/-- An entry of the route registry.  The key locates the handler below the
source root. -/
structure Route where
  key : String := ""
  path : String := ""
  method : String := "GET"
  params : Assoc ParamSchema := []
  auth : Option AuthRule := none
  rpcAuth : Option RpcSources := none
  ip : Bool := false
  cache : Bool := false
  logger : Bool := false
deriving Repr

/-- The classes of callers that a route belongs to. -/
def Route.access (route : Route) : List Access :=
  if route.rpcAuth.isSome then [.internal]
  else if route.auth.isSome then [.everyone, .loggedIn]
  else [.everyone]

/-- Where the handler of a key is found below a source root: a key that ends
with `/` is a directory with an index file. -/
def handlerPath (root key extension : String) : String :=
  let file :=
    if key.toList.getLast? == some '/' then key ++ "index." ++ extension
    else key ++ "." ++ extension
  FilePath.join root (Text.stripCharStart '/' file)

/-! ## Decoding -/

open Json.Decoder

def AuthRule.decoder (dialect : Dialect) : Json.Decoder AuthRule :=
  record dialect
    [ .spare "check" flag fun value rule => { rule with check := value },
      .spare "rule" (optional text) fun value rule =>
        { rule with rule := value } ]
    {}

/-- The strings of an array of strings. -/
def RpcSources.texts? : List Json → Option (List String)
  | [] => some []
  | .string text :: rest => (RpcSources.texts? rest).map (text :: ·)
  | _ => none

/-- One server or an array of them. -/
def RpcSources.ofJson? : Json → Option RpcSources
  | .string source => some (.one source)
  | .array items => (RpcSources.texts? items).map .many
  | _ => none

def Route.decoder (dialect : Dialect) : Json.Decoder Route :=
  record dialect
    [ .needed "key" text fun value route => { route with key := value },
      .needed "path" text fun value route => { route with path := value },
      .spare "method" text fun value route => { route with method := value },
      .spare "params" (assoc ParamSchema.decoder) fun value route =>
        { route with params := value },
      .spare "auth" (optional (AuthRule.decoder dialect)) fun value route =>
        { route with auth := value },
      .spare "rpc_auth" (optional (whole RpcSources.ofJson?))
        fun value route => { route with rpcAuth := value },
      .spare "ip" flag fun value route => { route with ip := value },
      .spare "cache" flag fun value route => { route with cache := value },
      .spare "logger" flag fun value route => { route with logger := value } ]
    {}

def Route.registry (dialect : Dialect) : Json.Decoder (List Route) :=
  list (Route.decoder dialect)

end TagDoc
