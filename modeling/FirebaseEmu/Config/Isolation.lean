import FirebaseEmu.Config.Safety

namespace FirebaseEmu.Config
open Lib
open Functions (mergeConfig)

/-- The variables of the environment that a load reads. -/
def configVariables : List String :=
  ["FIREBASE_EMU_PROJECT", "GCLOUD_PROJECT", "GOOGLE_CLOUD_PROJECT", "FIREBASE_EMU_HOST",
    "FIREBASE_FUNCTIONS_EMU_PORT", "FIRESTORE_EMU_PORT", "FIREBASE_AUTH_EMU_PORT",
    "FIREBASE_STORAGE_EMU_PORT", "FIREBASE_DATABASE_EMU_PORT", "PUBSUB_EMULATOR_PORT",
    "FIREBASE_FUNCTIONS_SOURCE", "FIREBASE_FUNCTIONS_RUNTIME", "FIREBASE_FUNCTIONS_CODEBASE",
    "FIREBASE_EMU_RUNTIME_CONFIG"]

/-- The names of the files that a load reads. -/
def configFiles (project : String) : List String :=
  ["firebase.json", ".firebaserc", "package.json", ".runtimeconfig.json", ".env." ++ project,
    ".env.local"]

/-- Two environments have the same values for these variables. -/
def SameVariables (names : List String) (environment environment' : Variables) : Prop :=
  ∀ name ∈ names, environment'.lookup name = environment.lookup name

/-- Two machines have the same files under these names. -/
structure SameFiles (names : List String) (files files' : Files) : Prop where
  canonicalize : files'.canonicalize = files.canonicalize
  fromStr : files'.fromStr = files.fromStr
  named : ∀ (path : Path) (name : String), path.fileName = some name → name ∈ names →
    files'.read path = files.read path ∧ files'.isFile path = files.isFile path

theorem fileName_child (path : Path) {name : String} (hslash : '/' ∉ name.toList)
    (hne : name ≠ "") (hdot : name ≠ ".") (hdots : name ≠ "..") :
    (path.child name).fileName = some name := by
  have habsolute : startsWith name "/" = false := by
    rw [Bool.eq_false_iff]
    intro h
    obtain ⟨rest, rfl⟩ := (startsWith_iff name "/").mp h
    exact hslash (by rw [String.toList_append]; exact List.mem_append_left _ (by decide))
  have hparts : Path.ofString name = ⟨false, [name]⟩ := by
    unfold Path.ofString
    rw [habsolute, split_of_not_mem '/' hslash, List.filter_cons_of_pos (by simpa using hne),
      List.filter_nil]
    rfl
  unfold Path.child Path.join Path.fileName
  rw [hparts]
  dsimp only
  rw [if_neg Bool.false_ne_true, List.filter_cons_of_pos (by simpa using hdot), List.filter_nil,
    List.getLast?_concat]
  simp [hdot, hdots]

section Reads
variable {files files' : Files} {project : String}

theorem SameFiles.child {names : List String} (h : SameFiles names files files') (path : Path)
    {name : String} (hm : name ∈ names) (hslash : '/' ∉ name.toList) (hne : name ≠ "")
    (hdot : name ≠ ".") (hdots : name ≠ "..") :
    files'.read (path.child name) = files.read (path.child name) ∧
      files'.isFile (path.child name) = files.isFile (path.child name) :=
  h.named _ name (fileName_child path hslash hne hdot hdots) hm

theorem SameFiles.readOptionalJson {names : List String} (h : SameFiles names files files')
    {path : Path} (hread : files'.read path = files.read path) :
    files'.readOptionalJson path = files.readOptionalJson path := by
  unfold Files.readOptionalJson
  rw [hread, h.fromStr]

theorem SameFiles.readConfig {names : List String} (h : SameFiles names files files')
    {path : Path} (hread : files'.read path = files.read path) :
    readConfig files' path = readConfig files path := by
  unfold Config.readConfig
  rw [h.readOptionalJson hread]

variable (h : SameFiles (configFiles project) files files')
include h

theorem package_same (source : Path) :
    files'.read (source.child "package.json") = files.read (source.child "package.json") ∧
      files'.isFile (source.child "package.json") = files.isFile (source.child "package.json") :=
  h.child source (by simp [configFiles]) (by decide) (by decide) (by decide) (by decide)

theorem confinedSource_same (base : Path) (source : String) :
    confinedSource files' base source = confinedSource files base source := by
  unfold confinedSource
  rw [h.canonicalize]
  simp only [(package_same h _).2]

theorem resolveRuntime_same (configured : Option String) (source : Path) :
    resolveRuntime files' configured source = resolveRuntime files configured source := by
  unfold resolveRuntime
  rw [h.readConfig (package_same h source).1]

theorem loadCodebases_same (base : Path) (name runtime : Option String) (alone : Bool)
    (seen : List FunctionCodebase) (index : Nat) (entries : List Json) :
    loadCodebases files' base name runtime alone seen index entries =
      loadCodebases files base name runtime alone seen index entries := by
  induction entries generalizing seen index with
  | nil => rfl
  | cons entry entries ih =>
    have hentry : loadCodebase files' base name runtime alone seen index entry =
        loadCodebase files base name runtime alone seen index entry := by
      unfold loadCodebase
      simp only [confinedSource_same h, resolveRuntime_same h]
    simp only [loadCodebases, hentry, ih]

theorem readRuntimeConfigs_same (codebases : List FunctionCodebase) :
    readRuntimeConfigs files' codebases = readRuntimeConfigs files codebases := by
  have hread : ∀ codebase : FunctionCodebase,
      files'.readOptionalJson (codebase.source.child ".runtimeconfig.json") =
        files.readOptionalJson (codebase.source.child ".runtimeconfig.json") := fun codebase =>
    h.readOptionalJson (h.child codebase.source (by simp [configFiles]) (by decide) (by decide)
      (by decide) (by decide)).1
  unfold readRuntimeConfigs
  simp only [hread]

theorem dotenv_same (hslash : '/' ∉ project.toList) (codebases : List FunctionCodebase)
    {path : Path} (hm : path ∈ dotenvPaths codebases project) :
    files'.read path = files.read path ∧ files'.isFile path = files.isFile path := by
  obtain ⟨codebase, -, hm⟩ := List.mem_flatMap.mp hm
  have hname : toString ".env." ++ toString project = ".env." ++ project := rfl
  have hlist : (".env." ++ project).toList = ['.', 'e', 'n', 'v', '.'] ++ project.toList := by
    rw [String.toList_append]
    rfl
  have hshort : ∀ short : String, short.toList.length < 5 → ".env." ++ project ≠ short := by
    rintro short hlen rfl
    rw [hlist, List.length_append] at hlen
    exact absurd hlen (by simp)
  rcases List.mem_cons.mp hm with rfl | hm
  · rw [hname]
    refine h.child codebase.source (by simp [configFiles]) ?_ (hshort _ (by decide))
      (hshort _ (by decide)) (hshort _ (by decide))
    rw [hlist, List.mem_append, not_or]
    exact ⟨by decide, hslash⟩
  · rw [List.mem_singleton.mp hm]
    exact h.child codebase.source (by simp [configFiles]) (by decide) (by decide) (by decide)
      (by decide)

theorem overlayDotenv_same (hslash : '/' ∉ project.toList) (codebases : List FunctionCodebase)
    {path : Path} (hm : path ∈ dotenvPaths codebases project) (values : Variables) :
    overlayDotenv files' path values = overlayDotenv files path values := by
  obtain ⟨hread, hfile⟩ := dotenv_same h hslash codebases hm
  unfold overlayDotenv
  rw [hread, hfile]

end Reads

section Environment
variable {environment environment' : Variables} (cli : ConfigOverrides)
  (henv : SameVariables configVariables environment environment')
include henv

theorem functionsAddresses_same (firebase : Json) :
    functionsAddresses cli environment' firebase = functionsAddresses cli environment firebase := by
  have hhost := henv "FIREBASE_EMU_HOST" (by simp [configVariables])
  have hfunctions := henv "FIREBASE_FUNCTIONS_EMU_PORT" (by simp [configVariables])
  have hfirestore := henv "FIRESTORE_EMU_PORT" (by simp [configVariables])
  have hauth := henv "FIREBASE_AUTH_EMU_PORT" (by simp [configVariables])
  have hstorage := henv "FIREBASE_STORAGE_EMU_PORT" (by simp [configVariables])
  have hdatabase := henv "FIREBASE_DATABASE_EMU_PORT" (by simp [configVariables])
  have hpubsub := henv "PUBSUB_EMULATOR_PORT" (by simp [configVariables])
  simp only [functionsAddresses, functionsHost, functionsPort, pubsubHost, explicitHost,
    selectedPort, envPort, hhost, hfunctions, hfirestore, hauth, hstorage, hdatabase, hpubsub]

theorem codebaseEntries_same (firebase : Json) :
    codebaseEntries cli environment' firebase = codebaseEntries cli environment firebase ∧
      codebaseOverride cli environment' = codebaseOverride cli environment ∧
      runtimeOverride cli environment' = runtimeOverride cli environment := by
  have hsource := henv "FIREBASE_FUNCTIONS_SOURCE" (by simp [configVariables])
  have hruntime := henv "FIREBASE_FUNCTIONS_RUNTIME" (by simp [configVariables])
  have hname := henv "FIREBASE_FUNCTIONS_CODEBASE" (by simp [configVariables])
  simp only [codebaseEntries, listedEntries, sourceOverride, codebaseOverride, runtimeOverride,
    hsource, hruntime, hname, and_self]

theorem projectOf_same (firebaserc : Json) :
    projectOf cli environment' firebaserc = projectOf cli environment firebaserc := by
  have hproject := henv "FIREBASE_EMU_PROJECT" (by simp [configVariables])
  have hgcloud := henv "GCLOUD_PROJECT" (by simp [configVariables])
  have hgoogle := henv "GOOGLE_CLOUD_PROJECT" (by simp [configVariables])
  simp only [projectOf, projectCandidate, hproject, hgcloud, hgoogle]

theorem loadRuntimeConfig_same {files files' : Files} {project : String}
    (h : SameFiles (configFiles project) files files') (codebases : List FunctionCodebase) :
    loadRuntimeConfig files' cli environment' codebases =
      loadRuntimeConfig files cli environment codebases := by
  have hruntime := henv "FIREBASE_EMU_RUNTIME_CONFIG" (by simp [configVariables])
  simp only [loadRuntimeConfig, hruntime, h.fromStr, readRuntimeConfigs_same h]

end Environment

/-- The variables of the dotenv files take their values from the environment that has them. -/
theorem loadLocalDotenv_same {files files' : Files} {project : String}
    (h : SameFiles (configFiles project) files files') (hslash : '/' ∉ project.toList)
    {codebases : List FunctionCodebase} {environment environment' result : Variables}
    (hload : loadLocalDotenv files codebases project environment = .ok result)
    (henv : SameVariables (result.map Prod.fst) environment environment') :
    loadLocalDotenv files' codebases project environment' = .ok result := by
  unfold loadLocalDotenv at hload ⊢
  obtain ⟨values, hvalues, hload⟩ := exceptBind_eq_ok.mp hload
  obtain rfl := Except.ok.inj hload
  rw [foldlM_congr fun path hm values => overlayDotenv_same h hslash codebases hm values, hvalues]
  refine congrArg Except.ok (List.map_congr_left fun entry hm => ?_)
  have hkey : entry.1 ∈ ((values.map fun entry =>
      (entry.1, (environment.lookup entry.1).getD entry.2)).map Prod.fst) := by
    rw [List.map_map]
    exact List.mem_map.mpr ⟨entry, hm, rfl⟩
  rw [henv _ hkey]

theorem project_slash {project : String} (h : validateDemoProject project = .ok ()) :
    '/' ∉ project.toList := by
  intro hm
  rcases (validateDemoProject_ok h).2 _ hm with hlower | hdigit | hdash
  · exact absurd hlower (by decide)
  · exact absurd hdigit (by decide)
  · exact absurd hdash (by decide)

theorem Loaded.same {files files' : Files} {root base : Path} {cli : ConfigOverrides}
    {environment environment' : Variables} {firebase firebaserc : Json} {entries : List Json}
    {config : FunctionsConfig}
    (h : Loaded files root cli environment base firebase firebaserc entries config)
    (hfiles : SameFiles (configFiles config.projectId) files files')
    (henv : SameVariables (configVariables ++ config.localEnvironment.map Prod.fst) environment
      environment') :
    Loaded files' root cli environment' base firebase firebaserc entries config := by
  have hconfig : SameVariables configVariables environment environment' :=
    fun name hm => henv name (List.mem_append_left _ hm)
  have hlocal : SameVariables (config.localEnvironment.map Prod.fst) environment environment' :=
    fun name hm => henv name (List.mem_append_right _ hm)
  obtain ⟨hentries, hname, hruntime⟩ := codebaseEntries_same cli hconfig firebase
  refine ⟨?_, ?_, ?_, ?_, h.project, ?_, ?_, ?_, ?_, ?_, h.firebaseConfig⟩
  · rw [hfiles.canonicalize]
    exact h.resolved
  · rw [hfiles.readConfig (hfiles.child base (by simp [configFiles]) (by decide) (by decide)
      (by decide) (by decide)).1]
    exact h.settings
  · rw [hfiles.readConfig (hfiles.child base (by simp [configFiles]) (by decide) (by decide)
      (by decide) (by decide)).1]
    exact h.aliases
  · rw [projectOf_same cli hconfig]
    exact h.projectId
  · rw [functionsAddresses_same cli hconfig]
    exact h.addresses
  · rw [hentries]
    exact h.listed
  · rw [hname, hruntime, loadCodebases_same hfiles]
    exact h.codebases
  · rw [loadRuntimeConfig_same cli hconfig hfiles]
    exact h.runtimeConfig
  · exact loadLocalDotenv_same hfiles (project_slash h.project) h.localEnvironment hlocal

def ConfigOverrides.none : ConfigOverrides :=
  ⟨.none, .none, .none, .none, .none, .none, .none, .none⟩

end FirebaseEmu.Config
