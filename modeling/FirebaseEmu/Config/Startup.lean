import FirebaseEmu.Config.Guard
import FirebaseEmu.Config.Isolation

namespace FirebaseEmu.Config
open Lib

structure CommandLine where
  configRoot : Option String
  dataDir : Option String
  inMemory : Bool
  noFunctions : Bool
  noUi : Bool
  uiPort : Option UInt16
  functions : ConfigOverrides

def CommandLine.default : CommandLine := ⟨none, none, false, false, false, none, .none⟩

/-- What an option does: it is a flag, it sets something to the argument behind it, or it asks for
help. -/
inductive Setting where
  | flag (result : CommandLine)
  | value (set : String → Except String CommandLine)
  | help
  | unknown

section
variable (fromStr : String → Except String Json) (result : CommandLine)

/-- A change of the overrides of the Functions configuration. -/
def CommandLine.override (change : ConfigOverrides → ConfigOverrides) : CommandLine :=
  { result with functions := change result.functions }

def setting : String → Setting
  | "--config" => .value fun path => .ok { result with configRoot := some path }
  | "--data-dir" => .value fun path => .ok { result with dataDir := some path }
  | "--in-memory" => .flag { result with inMemory := true }
  | "--project" => .value fun project =>
    .ok (result.override fun functions => { functions with project := some project })
  | "--host" => .value fun host =>
    .ok (result.override fun functions => { functions with host := some host })
  | "--functions-port" => .value fun port => (parseU16 port).map fun port =>
    result.override fun functions => { functions with functionsPort := some port }
  | "--pubsub-port" => .value fun port => (parseU16 port).map fun port =>
    result.override fun functions => { functions with pubsubPort := some port }
  | "--ui-port" => .value fun port => (parseU16 port).map fun port =>
    { result with uiPort := some port }
  | "--functions-source" => .value fun source =>
    .ok (result.override fun functions => { functions with functionsSource := some source })
  | "--functions-codebase" => .value fun codebase =>
    .ok (result.override fun functions => { functions with functionsCodebase := some codebase })
  | "--functions-runtime" => .value fun runtime =>
    .ok (result.override fun functions => { functions with functionsRuntime := some runtime })
  | "--runtime-config" => .value fun raw =>
    ((fromStr raw).mapError ("malformed --runtime-config JSON: " ++ ·)).map fun value =>
      result.override fun functions => { functions with runtimeConfig := some value }
  | "--no-functions" => .flag { result with noFunctions := true }
  | "--no-ui" => .flag { result with noUi := true }
  | "--help" => .help
  | "-h" => .help
  | _ => .unknown

end

/-- The loop over the arguments. One that is no UTF-8 has no text, and a call for help has no
result. -/
def readArguments (fromStr : String → Except String Json) (result : CommandLine) :
    List (Option String) → Except String (Option CommandLine)
  | [] => .ok (some result)
  | none :: _ => .error "command-line options must be valid UTF-8"
  | some argument :: rest =>
    match setting fromStr result argument, rest with
    | .flag result, rest => readArguments fromStr result rest
    | .value _, [] => .error s!"{argument} requires a value"
    | .value _, none :: _ => .error s!"{argument} must be valid UTF-8"
    | .value set, some value :: rest => do readArguments fromStr (← set value) rest
    | .help, _ => .ok none
    | .unknown, _ => .error s!"unknown option `{argument}` (use --help)"

def validateCommandLine (result : CommandLine) : Except String Unit :=
  if result.dataDir.isSome && result.inMemory then
    .error "--data-dir and --in-memory cannot be used together"
  else .ok ()

def commandLine (fromStr : String → Except String Json) (arguments : List (Option String)) :
    Except String (Option CommandLine) := do
  match ← readArguments fromStr .default arguments with
  | none => return none
  | some result => do
    validateCommandLine result
    return some result

/-- The directory of the project, if there is one. -/
def foundRoot (files : Files) (cli : CommandLine) (environment : Variables) :
    Except String (Option Path) :=
  match cli.configRoot <|> environment.lookup "FIREBASE_EMU_CONFIG_DIR" with
  | some path => .ok (some (Path.ofString path))
  | none =>
    if cli.functions.functionsSource.isSome ||
        (environment.lookup "FIREBASE_FUNCTIONS_SOURCE").isSome then
      files.currentDir.map some
    else
      files.currentDir.map fun current =>
        if files.isFile (current.child "firebase.json") then some current else none

/-- A path to the file stands for its directory. -/
def projectDirectory (path : Path) : Except String Path :=
  if path.fileName = some "firebase.json" then
    match path.parent with
    | some parent => .ok parent
    | none => .error "firebase.json must have a parent directory"
  else .ok path

def configuredRoot (files : Files) (cli : CommandLine) (environment : Variables) :
    Except String (Option Path) := do
  match ← foundRoot files cli environment with
  | none => return none
  | some path => (projectDirectory path).map some

/-- The port of a variable, or one by default. -/
def variablePort (environment : Variables) (portVariable : String) (defaultPort : UInt16) :
    Except String UInt16 :=
  match environment.lookup portVariable with
  | some value => parseU16 value
  | none => .ok defaultPort

def address (environment : Variables) (portVariable : String) (defaultPort : UInt16) :
    Except String SocketAddr :=
  let host := (environment.lookup "FIREBASE_EMU_HOST").getD "127.0.0.1"
  match IpAddr.parse host with
  | none => .error "invalid IP address syntax"
  | some ip =>
    if !ip.isLoopback then .error "FIREBASE_EMU_HOST must be a loopback IP address"
    else (variablePort environment portVariable defaultPort).map fun port => ⟨ip, port⟩

def readSettings (files : Files) (root : Option Path) : Except String Json :=
  match root with
  | some root => readConfig files (root.child "firebase.json")
  | none => .ok (.object [])

/-- The host of a service that somebody asks for, or that of the file. -/
def serviceHost (asked : Option String) (firebase : Json) (service : String) :
    Except String IpAddr :=
  match asked with
  | some host => parseLoopbackHost host false
  | none =>
    match emulatorHost firebase service with
    | some host => parseLoopbackHost host true
    | none => .ok (.v4 .localhost)

def loadPubsubAddress (files : Files) (root : Option Path) (cli : ConfigOverrides)
    (environment : Variables) : Except String SocketAddr := do
  let firebase ← readSettings files root
  let host ← serviceHost (explicitHost cli environment) firebase "pubsub"
  let selected ← selectedPort environment firebase "PUBSUB_EMULATOR_PORT" "pubsub" 8085
  let port := cli.pubsubPort.getD selected
  if port = 0 then .error "Pub/Sub emulator port must be between 1 and 65535"
  else return ⟨host, port⟩

def uiFilePort (firebase : Json) : Except String (Option UInt16) :=
  match emulatorField firebase "ui" "port" with
  | none => .ok none
  | some value =>
    match asPort value with
    | some port => .ok (some port)
    | none => .error "firebase.json emulator `ui` port must be an integer between 0 and 65535"

def loadUiAddress (files : Files) (root : Option Path) (cliPort : Option UInt16)
    (cliHost : Option String) (environment : Variables) : Except String SocketAddr := do
  let firebase ← readSettings files root
  let host ← serviceHost (cliHost <|> environment.lookup "FIREBASE_EMU_HOST") firebase "ui"
  let filePort ← uiFilePort firebase
  let fromEnvironment ← envPort environment "FIREBASE_UI_EMU_PORT"
  return ⟨host, (cliPort <|> fromEnvironment <|> filePort).getD 4000⟩

/-- The Functions configuration, where there is a project and Functions are wanted. -/
def loadFunctions (files : Files) (cli : CommandLine) (root : Option Path)
    (environment : Variables) : Except String (Option FunctionsConfig) :=
  if cli.noFunctions then .ok none
  else
    match root with
    | some root => (load files root cli.functions environment).map some
    | none => .ok none

/-- The addresses of Firestore, Auth, Storage and Pub/Sub. -/
structure Listeners where
  firestore : SocketAddr
  auth : SocketAddr
  storage : SocketAddr
  pubsub : SocketAddr

def listenerAddresses (files : Files) (cli : CommandLine) (root : Option Path)
    (environment : Variables) : Option FunctionsConfig → Except String Listeners
  | some config =>
    .ok ⟨config.addresses.firestore, config.addresses.auth, config.addresses.storage,
      config.addresses.pubsub⟩
  | none => do
    let firestore ← address environment "FIRESTORE_EMU_PORT" 8080
    let auth ← address environment "FIREBASE_AUTH_EMU_PORT" 9099
    let storage ← address environment "FIREBASE_STORAGE_EMU_PORT" 9199
    let pubsub ← loadPubsubAddress files root cli.functions environment
    return ⟨firestore, auth, storage, pubsub⟩

/-- The directory of the stored data, if data is stored. -/
def dataDirectory (files : Files) (cli : CommandLine) : Except String (Option Path) :=
  match cli.dataDir with
  | none => .ok none
  | some path =>
    if (Path.ofString path).absolute then .ok (some (Path.ofString path))
    else files.currentDir.map fun current => some (current.child path)

/-- What `run` starts. -/
structure Plan where
  functions : Option FunctionsConfig
  listeners : Listeners
  authProject : Option String
  defaultProject : String
  dataDir : Option Path
  ui : Option SocketAddr

/-- `run`, up to the first listener. -/
def plan (files : Files) (cli : CommandLine) (environment : Variables) : Except String Plan := do
  let root ← configuredRoot files cli environment
  let functions ← loadFunctions files cli root environment
  let listeners ← listenerAddresses files cli root environment functions
  let authProject := functions.map FunctionsConfig.projectId <|> cli.functions.project
  let defaultProject := (authProject <|> environment.lookup "GCLOUD_PROJECT" <|>
    environment.lookup "GOOGLE_CLOUD_PROJECT").getD "demo-rust-emu"
  let ui ← loadUiAddress files root cli.uiPort cli.functions.host environment
  let dataDir ← dataDirectory files cli
  return ⟨functions, listeners, authProject, defaultProject, dataDir, if cli.noUi then none else some ui⟩

inductive BindError where
  | addrInUse
  | failed (error : String)

/-- The address that the console gets: another port where its own is in use. `bind` is that of the
system, with the address that it has bound. -/
def bindUiListener (bind : SocketAddr → Except BindError SocketAddr) (addr : SocketAddr) :
    Except BindError SocketAddr :=
  match bind addr with
  | .ok listener => .ok listener
  | .error .addrInUse => if addr.port ≠ 0 then bind ⟨addr.ip, 0⟩ else .error .addrInUse
  | .error error => .error error

end FirebaseEmu.Config
