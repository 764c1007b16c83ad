import FirebaseEmu.Config.Functions

namespace FirebaseEmu.Config
open Lib

/-- What a load has read and computed. -/
structure Loaded (files : Files) (root : Path) (cli : ConfigOverrides) (environment : Variables)
    (base : Path) (firebase firebaserc : Json) (entries : List Json)
    (config : FunctionsConfig) : Prop where
  resolved : files.canonicalize root = .ok base
  settings : readConfig files (base.child "firebase.json") = .ok firebase
  aliases : readConfig files (base.child ".firebaserc") = .ok firebaserc
  projectId : config.projectId = projectOf cli environment firebaserc
  project : validateDemoProject config.projectId = .ok ()
  addresses : functionsAddresses cli environment firebase = .ok config.addresses
  listed : codebaseEntries cli environment firebase = .ok entries
  codebases : loadCodebases files base (codebaseOverride cli environment)
    (runtimeOverride cli environment) (entries.length == 1) [] 0 entries = .ok config.codebases
  runtimeConfig : loadRuntimeConfig files cli environment config.codebases =
    .ok config.runtimeConfig
  localEnvironment : loadLocalDotenv files config.codebases config.projectId environment =
    .ok config.localEnvironment
  firebaseConfig : config.firebaseConfig = firebaseConfigOf config.projectId
    config.addresses.database

theorem parseLoopbackHost_ok {host : String} {firebaseFile : Bool} {ip : IpAddr}
    (h : parseLoopbackHost host firebaseFile = .ok ip) : ip.isLoopback = true := by
  unfold parseLoopbackHost at h
  dsimp only at h
  split at h
  · cases h
  · split at h
    · rename_i hloopback
      obtain rfl := Except.ok.inj h
      exact hloopback
    · split at h
      · obtain rfl := Except.ok.inj h
        rfl
      · cases h

theorem selectedPort_ok {environment : Variables} {firebase : Json} {key service : String}
    {default port : UInt16}
    (h : selectedPort environment firebase key service default = .ok port) : port ≠ 0 := by
  unfold selectedPort at h
  obtain ⟨fromEnvironment, -, h⟩ := exceptBind_eq_ok.mp h
  obtain ⟨fromFile, -, h⟩ := exceptBind_eq_ok.mp h
  dsimp only at h
  split at h
  · cases h
  · rename_i hzero
    obtain rfl := Except.ok.inj h
    exact hzero

/-- The listeners in one list. -/
def EmulatorAddresses.all (addresses : EmulatorAddresses) : List SocketAddr :=
  [addresses.functions, addresses.firestore, addresses.auth, addresses.storage, addresses.database,
    addresses.pubsub]

/-- All listeners are on the machine itself, under ports of their own; only the Pub/Sub port may be
left to the system, on the command line. -/
structure EmulatorAddresses.Safe (cli : ConfigOverrides) (addresses : EmulatorAddresses) : Prop where
  loopback : ∀ address ∈ addresses.all, address.ip.isLoopback = true
  ports : ∀ address ∈ addresses.all, address.port ≠ 0 ∨
    address = addresses.pubsub ∧ cli.pubsubPort = some 0
  /-- The listeners of the emulated services but Pub/Sub are all on one host. -/
  shared : ∀ address ∈ addresses.all, address = addresses.pubsub ∨
    address.ip = addresses.functions.ip

theorem functionsHost_ok {cli : ConfigOverrides} {environment : Variables} {firebase : Json}
    {host : IpAddr} (h : functionsHost cli environment firebase = .ok host) :
    host.isLoopback = true := by
  unfold functionsHost at h
  split at h
  · exact parseLoopbackHost_ok h
  · split at h
    · exact parseLoopbackHost_ok h
    · obtain rfl := Except.ok.inj h
      rfl

theorem functionsPort_ok {cli : ConfigOverrides} {environment : Variables} {firebase : Json}
    {port : UInt16} (h : functionsPort cli environment firebase = .ok port) : port ≠ 0 := by
  unfold functionsPort at h
  obtain ⟨fromEnvironment, -, h⟩ := exceptBind_eq_ok.mp h
  obtain ⟨fromFile, -, h⟩ := exceptBind_eq_ok.mp h
  dsimp only at h
  split at h
  · cases h
  · rename_i hzero
    obtain rfl := Except.ok.inj h
    exact hzero

theorem pubsubHost_ok {cli : ConfigOverrides} {environment : Variables} {firebase : Json}
    {host found : IpAddr} (hloopback : host.isLoopback = true)
    (h : pubsubHost cli environment firebase host = .ok found) : found.isLoopback = true := by
  unfold pubsubHost at h
  split at h
  · exact parseLoopbackHost_ok h
  · obtain rfl := Except.ok.inj h
    exact hloopback

theorem functionsAddresses_ok {cli : ConfigOverrides} {environment : Variables} {firebase : Json}
    {addresses : EmulatorAddresses}
    (h : functionsAddresses cli environment firebase = .ok addresses) : addresses.Safe cli := by
  unfold functionsAddresses at h
  obtain ⟨host, hhost, h⟩ := exceptBind_eq_ok.mp h
  obtain ⟨functions, hfunctions, h⟩ := exceptBind_eq_ok.mp h
  obtain ⟨firestore, hfirestore, h⟩ := exceptBind_eq_ok.mp h
  obtain ⟨auth, hauth, h⟩ := exceptBind_eq_ok.mp h
  obtain ⟨storage, hstorage, h⟩ := exceptBind_eq_ok.mp h
  obtain ⟨database, hdatabase, h⟩ := exceptBind_eq_ok.mp h
  obtain ⟨found, hfound, h⟩ := exceptBind_eq_ok.mp h
  obtain ⟨pubsub, hpubsub, h⟩ := exceptBind_eq_ok.mp h
  obtain rfl := Except.ok.inj h
  have hloopback := functionsHost_ok hhost
  have hpubsubLoopback := pubsubHost_ok hloopback hfound
  refine ⟨?_, ?_, ?_⟩
  · simp [EmulatorAddresses.all, hloopback, hpubsubLoopback]
  · simp only [EmulatorAddresses.all, List.forall_mem_cons]
    refine ⟨.inl (functionsPort_ok hfunctions), .inl (selectedPort_ok hfirestore),
      .inl (selectedPort_ok hauth), .inl (selectedPort_ok hstorage),
      .inl (selectedPort_ok hdatabase), ?_, fun _ hm => (by cases hm)⟩
    cases hcli : cli.pubsubPort with
    | none => exact .inl (selectedPort_ok hpubsub)
    | some port =>
      by_cases hzero : port = 0
      · exact .inr (by simp [hzero])
      · exact .inl hzero
  · simp [EmulatorAddresses.all]

/-- A codebase that is run: its directory is in the project and has a package in it. -/
structure FunctionCodebase.Safe (files : Files) (base : Path) (codebase : FunctionCodebase) :
    Prop where
  named : validCodebase codebase.codebase = true
  runtime : codebase.runtime ∈ ["nodejs18", "nodejs20", "nodejs22"]
  confined : codebase.source.startsWith base = true
  package : files.isFile (codebase.source.child "package.json") = true

theorem confinedSource_ok {files : Files} {base source : Path} {configured : String}
    (h : confinedSource files base configured = .ok source) :
    source.startsWith base = true ∧ files.isFile (source.child "package.json") = true := by
  unfold confinedSource at h
  split at h
  · cases h
  obtain ⟨resolved, -, h⟩ := exceptBind_eq_ok.mp h
  split at h
  · cases h
  rename_i hconfined
  split at h
  · cases h
  rename_i hpackage
  obtain rfl := Except.ok.inj h
  exact ⟨by simpa using hconfined, by simpa using hpackage⟩

theorem resolveRuntime_ok {files : Files} {configured : Option String} {source : Path}
    {runtime : String} (h : resolveRuntime files configured source = .ok runtime) :
    runtime ∈ ["nodejs18", "nodejs20", "nodejs22"] := by
  unfold resolveRuntime at h
  obtain ⟨package, -, h⟩ := exceptBind_eq_ok.mp h
  dsimp only at h
  split at h
  · rename_i major hmajor
    obtain rfl := Except.ok.inj h
    have hm := List.mem_of_find?_eq_some hmajor
    simp only [List.mem_cons, List.not_mem_nil, or_false] at hm
    rcases hm with rfl | rfl | rfl
    · exact List.mem_cons_self
    · exact List.mem_cons_of_mem _ List.mem_cons_self
    · exact List.mem_cons_of_mem _ (List.mem_cons_of_mem _ List.mem_cons_self)
  · cases h

theorem checkCodebase_ok {seen : List FunctionCodebase} {codebase : String}
    (h : checkCodebase seen codebase = .ok ()) :
    validCodebase codebase = true ∧ codebase ∉ seen.map FunctionCodebase.codebase := by
  obtain ⟨⟨⟩, hvalid, h⟩ := exceptBind_eq_ok.mp h
  split at h
  · cases h
  rename_i hnew
  unfold validateCodebase at hvalid
  split at hvalid
  · rename_i hname
    exact ⟨hname, by simpa using hnew⟩
  · cases hvalid

theorem loadCodebase_ok {files : Files} {base : Path} {name runtime : Option String}
    {alone : Bool} {seen : List FunctionCodebase} {index : Nat} {entry : Json}
    {codebase : FunctionCodebase}
    (h : loadCodebase files base name runtime alone seen index entry = .ok codebase) :
    codebase.Safe files base ∧ codebase.codebase ∉ seen.map FunctionCodebase.codebase := by
  unfold loadCodebase at h
  obtain ⟨object, -, h⟩ := exceptBind_eq_ok.mp h
  obtain ⟨source, hsource, h⟩ := exceptBind_eq_ok.mp h
  obtain ⟨⟨⟩, hname, h⟩ := exceptBind_eq_ok.mp h
  obtain ⟨version, hversion, h⟩ := exceptBind_eq_ok.mp h
  obtain rfl := Except.ok.inj h
  obtain ⟨hconfined, hpackage⟩ := confinedSource_ok hsource
  obtain ⟨hvalid, hnew⟩ := checkCodebase_ok hname
  exact ⟨⟨hvalid, resolveRuntime_ok hversion, hconfined, hpackage⟩, hnew⟩

/-- The codebases that are loaded come behind those before, under new names. -/
theorem loadCodebases_ok {files : Files} {base : Path} {name runtime : Option String}
    {alone : Bool} {entries : List Json} {seen result : List FunctionCodebase} {index : Nat}
    (h : loadCodebases files base name runtime alone seen index entries = .ok result)
    (hsafe : ∀ codebase ∈ seen, codebase.Safe files base)
    (hnodup : (seen.map FunctionCodebase.codebase).Nodup) :
    (∀ codebase ∈ result, codebase.Safe files base) ∧
      (result.map FunctionCodebase.codebase).Nodup ∧
      result.length = seen.length + entries.length := by
  induction entries generalizing seen index with
  | nil =>
    obtain rfl := Except.ok.inj h
    exact ⟨hsafe, hnodup, rfl⟩
  | cons entry entries ih =>
    rw [loadCodebases] at h
    obtain ⟨codebase, hcodebase, h⟩ := exceptBind_eq_ok.mp h
    obtain ⟨hone, hnew⟩ := loadCodebase_ok hcodebase
    have hsafe' : ∀ other ∈ seen ++ [codebase], other.Safe files base := by
      intro other hm
      rcases List.mem_append.mp hm with hm | hm
      · exact hsafe other hm
      · rw [List.mem_singleton.mp hm]
        exact hone
    have hnodup' : ((seen ++ [codebase]).map FunctionCodebase.codebase).Nodup := by
      rw [List.map_append, List.map_singleton, List.nodup_append]
      refine ⟨hnodup, List.nodup_singleton _, fun a ha b hb he => ?_⟩
      rw [List.mem_singleton.mp hb] at he
      exact hnew (he ▸ ha)
    obtain ⟨hall, hdistinct, hlen⟩ := ih h hsafe' hnodup'
    refine ⟨hall, hdistinct, ?_⟩
    rw [hlen, List.length_append, List.length_singleton, List.length_cons]
    omega

theorem codebaseEntries_ok {cli : ConfigOverrides} {environment : Variables} {firebase : Json}
    {entries : List Json} (h : codebaseEntries cli environment firebase = .ok entries) :
    entries ≠ [] := by
  unfold codebaseEntries at h
  obtain ⟨found, -, h⟩ := exceptBind_eq_ok.mp h
  split at h
  · cases h
  rename_i hne
  obtain rfl := Except.ok.inj h
  simpa using hne

/-- What the emulator runs with: a local project, listeners on the machine itself, and codebases
inside the project, with distinct names. -/
structure FunctionsConfig.Safe (files : Files) (base : Path) (cli : ConfigOverrides)
    (config : FunctionsConfig) : Prop where
  project : startsWith config.projectId "demo-" = true ∧
    ∀ c ∈ config.projectId.toList, c.isLower = true ∨ c.isDigit = true ∨ c = '-'
  addresses : config.addresses.Safe cli
  nonempty : config.codebases ≠ []
  codebases : ∀ codebase ∈ config.codebases, codebase.Safe files base
  distinct : (config.codebases.map FunctionCodebase.codebase).Nodup

theorem validateDemoProject_ok {project : String} (h : validateDemoProject project = .ok ()) :
    startsWith project "demo-" = true ∧
      ∀ c ∈ project.toList, c.isLower = true ∨ c.isDigit = true ∨ c = '-' := by
  unfold validateDemoProject at h
  split at h
  · rename_i hvalid
    simp only [Bool.and_eq_true, List.all_eq_true, Bool.or_eq_true, beq_iff_eq, or_assoc] at hvalid
    exact hvalid
  · cases h

theorem Loaded.safe {files : Files} {root base : Path} {cli : ConfigOverrides}
    {environment : Variables} {firebase firebaserc : Json} {entries : List Json}
    {config : FunctionsConfig}
    (h : Loaded files root cli environment base firebase firebaserc entries config) :
    config.Safe files base cli := by
  obtain ⟨hall, hdistinct, hlen⟩ := loadCodebases_ok h.codebases (by simp) (by simp)
  refine ⟨validateDemoProject_ok h.project, functionsAddresses_ok h.addresses, ?_, hall, hdistinct⟩
  have hpos := List.length_pos_of_ne_nil (codebaseEntries_ok h.listed)
  apply List.ne_nil_of_length_pos
  rw [hlen]
  omega

end FirebaseEmu.Config
