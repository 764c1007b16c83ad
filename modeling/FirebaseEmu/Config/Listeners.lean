import FirebaseEmu.Config.Startup

namespace FirebaseEmu.Config
open Lib

def Listeners.all (listeners : Listeners) : List SocketAddr :=
  [listeners.firestore, listeners.auth, listeners.storage, listeners.pubsub]

/-- The variables by which a worker finds the emulated services. -/
def Listeners.hosts (listeners : Listeners) : Variables :=
  [("FIRESTORE_EMULATOR_HOST", listeners.firestore.display),
    ("FIREBASE_AUTH_EMULATOR_HOST", listeners.auth.display),
    ("FIREBASE_STORAGE_EMULATOR_HOST", listeners.storage.display),
    ("PUBSUB_EMULATOR_HOST", listeners.pubsub.display)]

/-- All addresses on which the emulator listens. -/
def Plan.addresses (plan : Plan) : List SocketAddr :=
  plan.listeners.all ++ (plan.functions.map fun config => config.addresses.functions).toList ++
    plan.ui.toList

/-- The emulator can be reached from the machine itself only, and the code of the project finds
nothing but the emulator. -/
structure Plan.Safe (parser : UriParser) (files : Files) (cli : CommandLine)
    (environment : Variables) (plan : Plan) : Prop where
  loopback : ∀ address ∈ plan.addresses, address.ip.isLoopback = true
  /-- The guard of a listener lets clients through that use its address. -/
  reached : ∀ address ∈ plan.addresses, ∀ (next : Request → Unit → Response × Unit),
    requireLoopbackRequest parser next (.toHost address.display) () =
      next (.toHost address.display) ()
  confined : ∀ config, plan.functions = some config → ∃ base, config.Safe files base cli.functions
  /-- A worker is sent to the listeners of the emulator, whatever the dotenv files and the
  environment have. -/
  hosts : ∀ config, plan.functions = some config → ∀ stringify codebase,
    ∀ entry ∈ plan.listeners.hosts ++ [("GCLOUD_PROJECT", config.projectId)],
      (workerEnvironment stringify config environment codebase).lookup entry.1 = some entry.2
  /-- The console answers its own page, and no page from elsewhere. -/
  console : ∀ ui, plan.ui = some ui → ∀ (origin : String)
    (next : Request → Unit → Response × Unit),
    consoleBoundary parser next ⟨some (some ui.display), some (some origin), none⟩ () =
      if origin = "http://" ++ ui.display then
        (secureConsoleResponse
          (next ⟨some (some ui.display), some (some origin), none⟩ ()).1, ())
      else (secureConsoleResponse (apiError 403 "console requires the same origin"), ())

/-- A system that binds the interface it is asked for never moves the console to another one. -/
theorem bindUiListener_ip {bind : SocketAddr → Except BindError SocketAddr}
    (hbind : ∀ asked bound, bind asked = .ok bound → bound.ip = asked.ip) {addr bound : SocketAddr}
    (h : bindUiListener bind addr = .ok bound) : bound.ip = addr.ip := by
  unfold bindUiListener at h
  cases hb : bind addr with
  | ok listener =>
    rw [hb] at h
    obtain rfl := Except.ok.inj h
    exact hbind _ _ hb
  | error error =>
    rw [hb] at h
    cases error with
    | failed message => cases h
    | addrInUse =>
      dsimp only at h
      split at h
      · exact hbind ⟨addr.ip, 0⟩ bound h
      · cases h

end FirebaseEmu.Config
