import FirebaseEmu.Config.Dotenv
import FirebaseEmu.Config.Files
import FirebaseEmu.Functions.RuntimeConfig
import FirebaseEmu.Lib.IpAddress

namespace FirebaseEmu.Config
open Lib
open Functions (mergeConfig validateObject)

structure ConfigOverrides where
  project : Option String
  host : Option String
  functionsPort : Option UInt16
  pubsubPort : Option UInt16
  functionsSource : Option String
  functionsCodebase : Option String
  functionsRuntime : Option String
  runtimeConfig : Option Json

structure FunctionCodebase where
  source : Path
  codebase : String
  runtime : String

structure EmulatorAddresses where
  functions : SocketAddr
  firestore : SocketAddr
  auth : SocketAddr
  storage : SocketAddr
  database : SocketAddr
  pubsub : SocketAddr

structure FunctionsConfig where
  projectId : String
  codebases : List FunctionCodebase
  addresses : EmulatorAddresses
  firebaseConfig : Json
  runtimeConfig : Json
  localEnvironment : Variables

def validateDemoProject (project : String) : Except String Unit :=
  if startsWith project "demo-" && project.toList.all fun c => c.isLower || c.isDigit || c == '-' then
    .ok ()
  else .error s!"Functions requires a local `demo-` project ID, got `{project}`"

def parseLoopbackHost (host : String) (firebaseFile : Bool) : Except String IpAddr :=
  let host := if host = "localhost" then "127.0.0.1" else host
  match IpAddr.parse host with
  | none => .error s!"emulator host `{host}` must be an IP address or localhost"
  | some parsed =>
    if parsed.isLoopback then .ok parsed
    else if firebaseFile && parsed.isUnspecified then .ok (.v4 .localhost)
    else .error s!"emulator host `{host}` is not loopback"

/-- One digit more of a number of 16 bits. -/
def pushDigit (n : Nat) (c : Char) : Except String Nat :=
  match decimalDigit c with
  | none => .error "invalid digit found in string"
  | some digit =>
    if 10 * n + digit < 65536 then .ok (10 * n + digit)
    else .error "number too large to fit in target type"

/-- `str::parse::<u16>`. -/
def parseU16 (s : String) : Except String UInt16 :=
  if s.isEmpty then .error "cannot parse integer from empty string"
  else
    match unsigned s.toList with
    | [] => .error "invalid digit found in string"
    | digits => (digits.foldlM pushDigit 0).map UInt16.ofNat

def envPort (environment : Variables) (key : String) : Except String (Option UInt16) :=
  match environment.lookup key with
  | none => .ok none
  | some raw => ((parseU16 raw).mapError (s!"invalid {key}: " ++ ·)).map some

/-- `value.as_u64()` as a port. -/
def asPort : Json → Option UInt16
  | .number (.posInt n) => if n.toNat < 65536 then some n.toUInt16 else none
  | _ => none

/-- `firebase.pointer("/emulators/<service>/<field>")`. -/
def emulatorField (firebase : Json) (service field : String) : Option Json := do
  ((← (← firebase.find? "emulators").find? service).find? field)

def jsonPort (firebase : Json) (service : String) : Except String (Option UInt16) :=
  match emulatorField firebase service "port" with
  | none => .ok none
  | some value =>
    match (asPort value).filter fun port => port != 0 with
    | some port => .ok (some port)
    | none =>
      .error s!"firebase.json emulator `{service}` port must be an integer between 1 and 65535"

def selectedPort (environment : Variables) (firebase : Json) (key service : String)
    (default : UInt16) : Except String UInt16 := do
  let fromEnvironment ← envPort environment key
  let fromFile ← jsonPort firebase service
  let selected := (fromEnvironment <|> fromFile).getD default
  if selected = 0 then .error s!"{key} must be between 1 and 65535"
  else return selected

def emulatorHost (firebase : Json) (service : String) : Option String :=
  (emulatorField firebase service "host").bind Json.asStr

def explicitHost (cli : ConfigOverrides) (environment : Variables) : Option String :=
  cli.host <|> environment.lookup "FIREBASE_EMU_HOST"

def functionsHost (cli : ConfigOverrides) (environment : Variables) (firebase : Json) :
    Except String IpAddr :=
  match explicitHost cli environment with
  | some host => parseLoopbackHost host false
  | none =>
    match emulatorHost firebase "functions" with
    | some host => parseLoopbackHost host true
    | none => .ok (.v4 .localhost)

def functionsPort (cli : ConfigOverrides) (environment : Variables) (firebase : Json) :
    Except String UInt16 := do
  let fromEnvironment ← envPort environment "FIREBASE_FUNCTIONS_EMU_PORT"
  let fromFile ← jsonPort firebase "functions"
  let port := (cli.functionsPort <|> fromEnvironment <|> fromFile).getD 5001
  if port = 0 then .error "Functions emulator port must be between 1 and 65535"
  else return port

/-- The host of Pub/Sub is that of Functions unless the file has another and nobody asks for
one. -/
def pubsubHost (cli : ConfigOverrides) (environment : Variables) (firebase : Json)
    (host : IpAddr) : Except String IpAddr :=
  match explicitHost cli environment, emulatorHost firebase "pubsub" with
  | none, some pubsubHost => parseLoopbackHost pubsubHost true
  | _, _ => .ok host

def functionsAddresses (cli : ConfigOverrides) (environment : Variables) (firebase : Json) :
    Except String EmulatorAddresses := do
  let host ← functionsHost cli environment firebase
  let functions ← functionsPort cli environment firebase
  let firestore ← selectedPort environment firebase "FIRESTORE_EMU_PORT" "firestore" 8080
  let auth ← selectedPort environment firebase "FIREBASE_AUTH_EMU_PORT" "auth" 9099
  let storage ← selectedPort environment firebase "FIREBASE_STORAGE_EMU_PORT" "storage" 9199
  let database ← selectedPort environment firebase "FIREBASE_DATABASE_EMU_PORT" "database" 9000
  let pubsubHost ← pubsubHost cli environment firebase host
  let pubsub ← selectedPort environment firebase "PUBSUB_EMULATOR_PORT" "pubsub" 8085
  return ⟨⟨host, functions⟩, ⟨host, firestore⟩, ⟨host, auth⟩, ⟨host, storage⟩, ⟨host, database⟩,
    ⟨pubsubHost, cli.pubsubPort.getD pubsub⟩⟩

def confinedSource (files : Files) (root : Path) (source : String) : Except String Path :=
  if (Path.ofString source).absolute then
    .error "Functions source must be relative to the Firebase project"
  else do
    let resolved ← (files.canonicalize (root.child source)).mapError
      (s!"invalid Functions source {source}: " ++ ·)
    if !resolved.startsWith root then .error s!"Functions source escapes project root: {source}"
    else if !files.isFile (resolved.child "package.json") then
      .error s!"Functions source has no package.json: {resolved.display}"
    else return resolved

def validCodebase (codebase : String) : Bool :=
  !codebase.isEmpty && codebase.toList.all fun c => c.isAlphanum || c == '-' || c == '_'

def validateCodebase (codebase : String) : Except String Unit :=
  if validCodebase codebase then .ok () else .error s!"invalid Functions codebase `{codebase}`"

/-- The version is one that the text names. -/
def namesMajor (compact : String) (major : Nat) : Bool :=
  compact == s!"{major}" || compact == s!"{major}.x" || compact == s!"nodejs{major}" ||
    startsWith compact s!">={major}<{major + 1}"

/-- A file that may be missing, as an empty object then. -/
def readConfig (files : Files) (path : Path) : Except String Json :=
  (files.readOptionalJson path).map fun found => found.getD (.object [])

def resolveRuntime (files : Files) (configured : Option String) (source : Path) :
    Except String String := do
  let package ← readConfig files (source.child "package.json")
  let engine := ((package.find? "engines").bind (Json.find? "node")).bind Json.asStr
  let raw := (configured <|> engine).getD "20"
  let compact := String.ofList (raw.toList.filter fun c => c != ' ' && c != 'v')
  match [18, 20, 22].find? (namesMajor compact) with
  | some major => .ok s!"nodejs{major}"
  | none => .error s!"unsupported Functions Node runtime `{raw}`; expected 18, 20, or 22"

/-- A value or null. -/
def optionJson : Option String → Json
  | some text => .string text
  | none => .null

def sourceOverride (cli : ConfigOverrides) (environment : Variables) : Option String :=
  cli.functionsSource <|> environment.lookup "FIREBASE_FUNCTIONS_SOURCE"

def runtimeOverride (cli : ConfigOverrides) (environment : Variables) : Option String :=
  cli.functionsRuntime <|> environment.lookup "FIREBASE_FUNCTIONS_RUNTIME"

def codebaseOverride (cli : ConfigOverrides) (environment : Variables) : Option String :=
  cli.functionsCodebase <|> environment.lookup "FIREBASE_FUNCTIONS_CODEBASE"

/-- The entries for the codebases, from an override of the source or from the file. -/
def listedEntries (cli : ConfigOverrides) (environment : Variables) (firebase : Json) :
    Except String (List Json) :=
  match sourceOverride cli environment with
  | some source =>
    .ok [.object [("codebase", optionJson (codebaseOverride cli environment)),
      ("runtime", optionJson (runtimeOverride cli environment)), ("source", .string source)]]
  | none =>
    match firebase.find? "functions" with
    | some (.array items) => .ok items
    | some (.object entries) => .ok [.object entries]
    | some _ => .error "firebase.json `functions` must be an object or array"
    | none => .ok [.object [("source", .string "functions")]]

def codebaseEntries (cli : ConfigOverrides) (environment : Variables) (firebase : Json) :
    Except String (List Json) := do
  let entries ← listedEntries cli environment firebase
  if entries.isEmpty then .error "firebase.json `functions` array must not be empty"
  else return entries

def entryObject : Json → Except String (List (String × Json))
  | .object entries => .ok entries
  | _ => .error "each Functions configuration must be an object"

/-- The name is valid and that of no codebase before. -/
def checkCodebase (seen : List FunctionCodebase) (codebase : String) : Except String Unit := do
  validateCodebase codebase
  if seen.any fun other => other.codebase == codebase then
    .error s!"duplicate Functions codebase `{codebase}`"
  else return ()

/-- One turn of the loop over the entries. -/
def loadCodebase (files : Files) (root : Path) (codebaseOverride runtimeOverride : Option String)
    (alone : Bool) (seen : List FunctionCodebase) (index : Nat) (entry : Json) :
    Except String FunctionCodebase := do
  let object ← entryObject entry
  let configuredSource := ((object.lookup "source").bind Json.asStr).getD "functions"
  let source ← confinedSource files root configuredSource
  let named := codebaseOverride <|> (object.lookup "codebase").bind Json.asStr
  let codebase := named.getD (if alone then "default" else s!"codebase-{index}")
  checkCodebase seen codebase
  let runtimeValue := runtimeOverride <|> (object.lookup "runtime").bind Json.asStr
  let runtime ← resolveRuntime files runtimeValue source
  return ⟨source, codebase, runtime⟩

def loadCodebases (files : Files) (root : Path) (codebaseOverride runtimeOverride : Option String)
    (alone : Bool) : List FunctionCodebase → Nat → List Json → Except String (List FunctionCodebase)
  | seen, _, [] => .ok seen
  | seen, index, entry :: rest => do
    let codebase ←
      loadCodebase files root codebaseOverride runtimeOverride alone seen index entry
    loadCodebases files root codebaseOverride runtimeOverride alone (seen ++ [codebase])
      (index + 1) rest

/-- `merge_runtime_configs`, with the reads of the files. -/
def readRuntimeConfigs (files : Files) (codebases : List FunctionCodebase) : Except String Json :=
  (codebases.foldlM (fun result (codebase : FunctionCodebase) => do
    mergeConfig result (← files.readOptionalJson (codebase.source.child ".runtimeconfig.json")))
    []).map .object

/-- `runtime_config` from the command line, the environment or the codebases. -/
def loadRuntimeConfig (files : Files) (cli : ConfigOverrides) (environment : Variables)
    (codebases : List FunctionCodebase) : Except String Json :=
  match cli.runtimeConfig with
  | some value => (validateObject value "command-line runtime config").map .object
  | none =>
    match environment.lookup "FIREBASE_EMU_RUNTIME_CONFIG" with
    | some raw => do
      let value ←
        (files.fromStr raw).mapError ("malformed FIREBASE_EMU_RUNTIME_CONFIG: " ++ ·)
      (validateObject value "FIREBASE_EMU_RUNTIME_CONFIG").map .object
    | none => readRuntimeConfigs files codebases

/-- The variables of a dotenv file put over others, if it is there. -/
def overlayDotenv (files : Files) (path : Path) (values : Variables) : Except String Variables :=
  if files.isFile path then
    match files.read path with
    | .ok raw => (parseDotenv raw path.display).map fun found =>
      found.foldl (fun values entry => insertKey entry.1 entry.2 values) values
    | .error .notFound => .error "No such file or directory (os error 2)"
    | .error (.failed error) => .error error
  else .ok values

/-- The paths of the dotenv files, in the order in which they are read. Generic `.env` files are
not among them. -/
def dotenvPaths (codebases : List FunctionCodebase) (project : String) : List Path :=
  codebases.flatMap fun codebase =>
    [codebase.source.child s!".env.{project}", codebase.source.child ".env.local"]

def loadLocalDotenv (files : Files) (codebases : List FunctionCodebase) (project : String)
    (environment : Variables) : Except String Variables := do
  let values ← (dotenvPaths codebases project).foldlM (fun values path =>
    overlayDotenv files path values) []
  return values.map fun entry => (entry.1, (environment.lookup entry.1).getD entry.2)

def projectCandidate (cli : ConfigOverrides) (environment : Variables) (firebaserc : Json) :
    String :=
  (cli.project <|> environment.lookup "FIREBASE_EMU_PROJECT" <|>
    environment.lookup "GCLOUD_PROJECT" <|> environment.lookup "GOOGLE_CLOUD_PROJECT" <|>
    ((firebaserc.find? "projects").bind (Json.find? "default")).bind Json.asStr).getD
      "demo-rust-emu"

/-- The project, behind its alias if it is one. -/
def projectOf (cli : ConfigOverrides) (environment : Variables) (firebaserc : Json) : String :=
  let candidate := projectCandidate cli environment firebaserc
  (((firebaserc.find? "projects").bind (Json.find? candidate)).bind Json.asStr).getD candidate

def firebaseConfigOf (projectId : String) (database : SocketAddr) : Json :=
  .object [("databaseURL", .string s!"http://{database.display}?ns={projectId}"),
    ("projectId", .string projectId), ("storageBucket", .string s!"{projectId}.appspot.com")]

def load (files : Files) (root : Path) (cli : ConfigOverrides) (environment : Variables) :
    Except String FunctionsConfig := do
  let root ← files.canonicalize root
  let firebase ← readConfig files (root.child "firebase.json")
  let firebaserc ← readConfig files (root.child ".firebaserc")
  let projectId := projectOf cli environment firebaserc
  validateDemoProject projectId
  let addresses ← functionsAddresses cli environment firebase
  let entries ← codebaseEntries cli environment firebase
  let codebases ← loadCodebases files root (codebaseOverride cli environment)
    (runtimeOverride cli environment) (entries.length == 1) [] 0 entries
  let runtimeConfig ← loadRuntimeConfig files cli environment codebases
  let localEnvironment ← loadLocalDotenv files codebases projectId environment
  return ⟨projectId, codebases, addresses, firebaseConfigOf projectId addresses.database,
    runtimeConfig, localEnvironment⟩

/-- The variables that a Functions runtime gets whatever the dotenv files say. `stringify` is
`Value::to_string`. -/
def FunctionsConfig.runtimeEntries (stringify : Json → String) (config : FunctionsConfig) :
    Variables :=
  [("GCLOUD_PROJECT", config.projectId), ("GOOGLE_CLOUD_PROJECT", config.projectId),
    ("FIREBASE_CONFIG", stringify config.firebaseConfig),
    ("CLOUD_RUNTIME_CONFIG", stringify config.runtimeConfig),
    ("FIRESTORE_EMULATOR_HOST", config.addresses.firestore.display),
    ("FIREBASE_AUTH_EMULATOR_HOST", config.addresses.auth.display),
    ("FIREBASE_STORAGE_EMULATOR_HOST", config.addresses.storage.display),
    ("FIREBASE_DATABASE_EMULATOR_HOST", config.addresses.database.display),
    ("PUBSUB_EMULATOR_HOST", config.addresses.pubsub.display), ("FUNCTIONS_EMULATOR", "true"),
    ("NODE_ENV", "development")]

def FunctionsConfig.childEnvironment (stringify : Json → String) (config : FunctionsConfig) :
    Variables :=
  (config.runtimeEntries stringify).foldl
    (fun result entry => insertKey entry.1 entry.2 result) config.localEnvironment

/-- The variables of the host that every worker gets. -/
def hostVariables : List String :=
  ["PATH", "SYSTEMROOT", "WINDIR", "TEMP", "TMP", "PATHEXT", "COMSPEC"]

/-- The variables that a worker gets besides. -/
def FunctionsConfig.workerEntries (config : FunctionsConfig) (codebase : FunctionCodebase) :
    Variables :=
  [("STORAGE_EMULATOR_HOST", s!"http://{config.addresses.storage.display}"),
    ("FUNCTIONS_CODEBASE", codebase.codebase)]

/-- The environment that `start_worker` gives the process of a codebase. -/
def workerEnvironment (stringify : Json → String) (config : FunctionsConfig)
    (environment : Variables) (codebase : FunctionCodebase) : Variables :=
  let kept := hostVariables.filterMap fun name =>
    (environment.lookup name).map fun value => (name, value)
  (kept ++ config.childEnvironment stringify ++ config.workerEntries codebase).foldl
    (fun result entry => insertKey entry.1 entry.2 result) []

end FirebaseEmu.Config
