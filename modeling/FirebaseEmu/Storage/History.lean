import FirebaseEmu.Storage.Blobs
import FirebaseEmu.Storage.Service

namespace FirebaseEmu.Storage
open Lib Std

variable {μ π : Type} {codec : StorageCodec μ} {event : String → Json → π}

/-- The requests of a run, each with its answer. -/
def history {σ : Type} (handle : σ → StorageCall π → Reply × σ) :
    σ → List (StorageCall π) → List (StorageCall π × Reply)
  | _, [] => []
  | state, call :: calls =>
    (call, (handle state call).1) :: history handle (handle state call).2 calls

/-- The metadata that a successful save is answered with. -/
def savedJson (served : StorageCall π × Reply) : Option Json :=
  match served.1.request, served.2 with
  | .save _ _ _ _, .object json => some json
  | _, _ => none

/-- Each save gets a generation above all earlier ones, and above the bound. -/
def Growing (bound : Nat) (served : List (StorageCall π × Reply)) : Prop :=
  ∃ generations : List Nat, (∀ generation ∈ generations, bound < generation) ∧
    generations.Pairwise (· < ·) ∧
    (served.filterMap savedJson).map (·.get "generation") =
      generations.map fun generation => .string (toString generation)

/-- The creation times that the answers so far have shown, one for each object that is there. -/
def noteCreation (known : ObjectKey → Option Json) (served : StorageCall π × Reply) :
    ObjectKey → Option Json :=
  match served.1.request, served.2 with
  | .save key _ _ _, .object json => Function.update known key (some (json.get "timeCreated"))
  | .delete key, .noContent => Function.update known key none
  | _, _ => known

/-- An overwrite shows the creation time that is known, and another save its own time. -/
def CreationsKept (known : ObjectKey → Option Json) : List (StorageCall π × Reply) → Prop
  | [] => True
  | served :: rest =>
    (∀ key bytes metadata fallbackContentType json,
      served.1.request = .save key bytes metadata fallbackContentType →
      served.2 = .object json →
      json.get "timeCreated" = (known key).getD (.string served.1.now)) ∧
    CreationsKept (noteCreation known served) rest

theorem lookup_optional (key other : String) (value : Option String) (h : other ≠ key) :
    (optional key value).lookup other = none := by
  have hkey : (other == key) = false := by simpa using h
  cases value <;> simp [optional, List.lookup_cons, hkey]

theorem timeCreated_objectJson (object : StoredObject) :
    (objectJson object).get "timeCreated" = .string object.created := by
  simp [Json.get, objectJson, objectFields, List.lookup_append, lookup_optional, List.lookup_cons]

theorem generation_objectJson (object : StoredObject) :
    (objectJson object).get "generation" = .string (toString object.generation) := by
  simp [Json.get, objectJson, objectFields, List.lookup_append, lookup_optional, List.lookup_cons]

theorem Growing.nil (bound : Nat) : Growing bound ([] : List (StorageCall π × Reply)) :=
  ⟨[], List.forall_mem_nil _, .nil, rfl⟩

theorem Growing.skip {bound : Nat} {served : StorageCall π × Reply}
    {rest : List (StorageCall π × Reply)} (h : Growing bound rest) (hs : savedJson served = none) :
    Growing bound (served :: rest) := by
  obtain ⟨generations, hbound, hgrowing, heq⟩ := h
  exact ⟨generations, hbound, hgrowing, by rw [List.filterMap_cons_none hs, heq]⟩

theorem Growing.save {bound : Nat} {served : StorageCall π × Reply}
    {rest : List (StorageCall π × Reply)} {object : StoredObject} (h : Growing (bound + 1) rest)
    (hs : savedJson served = some (objectJson object)) (hg : object.generation = bound + 1) :
    Growing bound (served :: rest) := by
  obtain ⟨generations, hbound, hgrowing, heq⟩ := h
  refine ⟨(bound + 1) :: generations, List.forall_mem_cons.mpr ⟨Nat.lt_succ_self _,
    fun generation hm => ?_⟩, List.pairwise_cons.mpr ⟨hbound, hgrowing⟩, ?_⟩
  · exact Nat.lt_of_succ_lt (hbound generation hm)
  · rw [List.filterMap_cons_some hs, List.map_cons, heq, generation_objectJson, hg]
    rfl

/-- What the backends must keep for generations and creation times: the last generation, and the
creation time of each object. -/
structure Catalog where
  generation : Nat
  created : ObjectKey → Option String

/-- What a request may do to the catalog, given its answer. -/
inductive CatalogStep (call : StorageCall π) : Reply → Catalog → Catalog → Prop where
  | save {catalog : Catalog} {key : ObjectKey} {bytes : Bytes} {metadata : UploadMetadata}
      {fallbackContentType : Option String} {object : StoredObject}
      (hr : call.request = .save key bytes metadata fallbackContentType)
      (hg : object.generation = catalog.generation + 1)
      (hc : object.created = (catalog.created key).getD call.now) :
    CatalogStep call (.object (objectJson object)) catalog
      ⟨catalog.generation + 1, Function.update catalog.created key (some object.created)⟩
  | delete {catalog : Catalog} {key : ObjectKey} (hr : call.request = .delete key) :
    CatalogStep call .noContent catalog
      ⟨catalog.generation, Function.update catalog.created key none⟩
  | other {catalog : Catalog} {reply : Reply}
      (hs : ∀ key bytes metadata fallbackContentType json,
        call.request = .save key bytes metadata fallbackContentType → reply ≠ .object json)
      (hd : ∀ key, call.request = .delete key → reply ≠ .noContent) :
    CatalogStep call reply catalog catalog

theorem CatalogStep.idle {call : StorageCall π} {reply : Reply} {catalog : Catalog}
    (hs : ∀ key bytes metadata fallbackContentType,
      call.request ≠ .save key bytes metadata fallbackContentType)
    (hd : ∀ key, call.request ≠ .delete key) : CatalogStep call reply catalog catalog :=
  .other (fun key bytes metadata fallbackContentType _ hr =>
    absurd hr (hs key bytes metadata fallbackContentType)) fun key hr => absurd hr (hd key)

def Catalog.empty : Catalog := ⟨0, fun _ => none⟩

/-- What is known of the creation times when the answers are from this catalog. -/
def Catalog.known (catalog : Catalog) (key : ObjectKey) : Option Json :=
  (catalog.created key).map .string

theorem known_update (catalog : Catalog) (generation : Nat) (key : ObjectKey)
    (created : Option String) :
    (⟨generation, Function.update catalog.created key created⟩ : Catalog).known =
      Function.update catalog.known key (created.map .string) := by
  funext other
  by_cases he : other = key
  · subst he
    simp [Catalog.known]
  · simp [Catalog.known, he]

theorem savedJson_eq_none {call : StorageCall π} {reply : Reply}
    (h : ∀ key bytes metadata fallbackContentType json,
      call.request = .save key bytes metadata fallbackContentType → reply ≠ .object json) :
    savedJson (call, reply) = none := by
  unfold savedJson
  split
  · rename_i hr hj
    exact absurd hj (h _ _ _ _ _ hr)
  · rfl

theorem noteCreation_eq {call : StorageCall π} {reply : Reply} {catalog catalog' : Catalog}
    (h : CatalogStep call reply catalog catalog') :
    noteCreation catalog.known (call, reply) = catalog'.known := by
  cases h with
  | save hr hg hc =>
    unfold noteCreation
    simp only [hr]
    rw [known_update, timeCreated_objectJson]
    rfl
  | delete hr =>
    unfold noteCreation
    simp only [hr]
    rw [known_update]
    rfl
  | other hs hd =>
    unfold noteCreation
    split
    · rename_i hr hj
      exact absurd hj (hs _ _ _ _ _ hr)
    · rename_i hr hj
      exact absurd hj (hd _ hr)
    · rfl

section Runs
variable {σ : Type} {handle : σ → StorageCall π → Reply × σ} (view : σ → Catalog)

theorem growing_of_steps (hstep : ∀ state call,
      CatalogStep call (handle state call).1 (view state) (view (handle state call).2))
    (state : σ) (calls : List (StorageCall π)) :
    Growing (view state).generation (history handle state calls) := by
  induction calls generalizing state with
  | nil => exact .nil _
  | cons call calls ih =>
    have hrest := ih (handle state call).2
    have h := hstep state call
    unfold history
    generalize (handle state call).1 = reply at h
    generalize view (handle state call).2 = catalog' at h hrest
    cases h with
    | save hr hg hc =>
      refine hrest.save ?_ hg
      unfold savedJson
      simp only [hr]
    | delete hr =>
      refine hrest.skip (savedJson_eq_none fun _ _ _ _ _ hs => ?_)
      rw [hr] at hs
      cases hs
    | other hs hd => exact hrest.skip (savedJson_eq_none hs)

theorem creationsKept_of_steps (hstep : ∀ state call,
      CatalogStep call (handle state call).1 (view state) (view (handle state call).2))
    (state : σ) (calls : List (StorageCall π)) :
    CreationsKept (view state).known (history handle state calls) := by
  induction calls generalizing state with
  | nil => trivial
  | cons call calls ih =>
    have h := hstep state call
    refine ⟨fun key bytes metadata fallbackContentType json hr hj => ?_, ?_⟩
    · replace hj : (handle state call).1 = .object json := hj
      rw [hj] at h
      generalize view (handle state call).2 = catalog' at h
      cases h with
      | save hr' hg hc =>
        rw [show call.request = _ from hr] at hr'
        obtain ⟨rfl, -⟩ := StorageRequest.save.inj hr'
        rw [timeCreated_objectJson, hc, Catalog.known]
        cases (view state).created key <;> rfl
      | other hs hd => exact absurd rfl (hs _ _ _ _ _ hr)
    · rw [noteCreation_eq h]
      exact ih _

end Runs

def StorageData.catalog (data : StorageData) : Catalog :=
  ⟨data.nextGeneration, fun key => data.objects[key]?.map StoredObject.created⟩

theorem StorageData.catalog_empty : StorageData.empty.catalog = .empty :=
  congrArg (Catalog.mk 0) (funext fun key => congrArg (Option.map StoredObject.created)
    (show StorageData.empty.objects[key]? = none from ExtTreeMap.getElem?_empty))

theorem StorageData.catalogStep (data : StorageData) (call : StorageCall π) :
    CatalogStep call (data.handle codec call).1 data.catalog
      (data.handle codec call).2.catalog := by
  obtain ⟨request, now, memoryToken, draws⟩ := call
  cases request with
  | save key bytes metadata fallbackContentType =>
    have hcatalog : (data.saveObject codec key bytes metadata fallbackContentType now
        memoryToken).2.catalog = ⟨data.nextGeneration + 1,
          Function.update data.catalog.created key (some (data.savedObject codec key bytes metadata
            fallbackContentType now memoryToken).created)⟩ := by
      refine congrArg (Catalog.mk _) (funext fun other => ?_)
      change ((data.objects.insert _ _)[other]?).map _ = _
      rw [ExtTreeMap.getElem?_insert]
      by_cases he : other = key
      · simp [he]
      · simp [he, Ne.symm he, StorageData.catalog]
    change CatalogStep _ _ _ (data.saveObject codec key bytes metadata fallbackContentType now
      memoryToken).2.catalog
    rw [hcatalog]
    exact .save rfl rfl rfl
  | delete key =>
    change CatalogStep _ (data.deleteObject key).1 _ (data.deleteObject key).2.catalog
    unfold StorageData.deleteObject
    split
    · have hcatalog : ({ data with objects := data.objects.erase key } : StorageData).catalog =
          ⟨data.nextGeneration, Function.update data.catalog.created key none⟩ := by
        refine congrArg (Catalog.mk _) (funext fun other => ?_)
        change ((data.objects.erase _)[other]?).map _ = _
        rw [ExtTreeMap.getElem?_erase]
        by_cases he : other = key
        · simp [he]
        · simp [he, Ne.symm he, StorageData.catalog]
      rw [hcatalog]
      exact .delete rfl
    · exact .other (fun _ _ _ _ _ hs => by cases hs) fun _ _ => nofun
  | metadata key => exact .idle nofun nofun
  | media key => exact .idle nofun nofun
  | list bucket query => exact .idle nofun nofun
  | reopen => exact .idle nofun nofun
  | others outbox => exact .idle nofun nofun

def ObjectTables.catalog (tables : ObjectTables μ π) : Catalog :=
  ⟨tables.generation, fun key => tables.rows[key]?.map ObjectRow.created⟩

theorem ObjectTables.catalog_empty (eventsEnabled : Bool) :
    (ObjectTables.empty eventsEnabled : ObjectTables μ π).catalog = .empty :=
  congrArg (Catalog.mk 0) (funext fun key => congrArg (Option.map ObjectRow.created)
    (show (ObjectTables.empty eventsEnabled : ObjectTables μ π).rows[key]? = none from
      ExtTreeMap.getElem?_empty))

theorem PersistentStore.catalogStep_save (store : PersistentStore μ π) (save : Save)
    (now token : String) {call : StorageCall π} (hnow : call.now = now)
    (hr : call.request = .save save.key save.bytes save.metadata save.fallbackContentType) :
    CatalogStep call (store.saveObject codec event save now token).1 store.tables.catalog
      (store.saveObject codec event save now token).2.tables.catalog := by
  have hrefused : ∀ (error : PersistenceError),
      CatalogStep call (persistenceFailure error) store.tables.catalog store.tables.catalog := by
    intro error
    refine .other (fun _ _ _ _ _ _ => nofun) fun _ hs => ?_
    rw [hr] at hs
    cases hs
  unfold PersistentStore.saveObject
  split
  · exact hrefused _
  · split
    · exact hrefused _
    · rename_i tables object old hsave
      obtain ⟨rfl, hrows, hgeneration, -⟩ := saveObject_ok hsave
      have hcatalog : tables.catalog = ⟨store.tables.generation + 1,
          Function.update store.tables.catalog.created save.key
            (some (store.tables.savedObject codec save now token).created)⟩ := by
        rw [ObjectTables.catalog, hgeneration, hrows]
        refine congrArg (Catalog.mk _) (funext fun other => ?_)
        rw [ExtTreeMap.getElem?_insert]
        by_cases he : other = save.key
        · subst he
          simp only [LawfulEqOrd.compare_eq_iff_eq, if_true, Function.update_self, Option.map_some]
          simp only [objectRow, ObjectTables.savedObject, newObject]
          cases store.tables.rows[save.key]? <;> rfl
        · simp [he, Ne.symm he, ObjectTables.catalog]
      change CatalogStep call _ _ tables.catalog
      rw [hcatalog]
      exact .save hr rfl (hnow ▸ rfl)

theorem PersistentStore.catalogStep (store : PersistentStore μ π) (call : StorageCall π) :
    CatalogStep call (store.handle codec event call).1 store.tables.catalog
      (store.handle codec event call).2.tables.catalog := by
  obtain ⟨request, now, memoryToken, draws⟩ := call
  cases request with
  | save key bytes metadata fallbackContentType =>
    exact store.catalogStep_save ⟨key, bytes, metadata, fallbackContentType, draws.blobName,
      draws.temporaryName⟩ now draws.token rfl rfl
  | delete key =>
    change CatalogStep _ (store.deleteObject codec event key).1 _
      (store.deleteObject codec event key).2.tables.catalog
    unfold PersistentStore.deleteObject
    split
    · rename_i tables blob hdelete
      obtain ⟨row, -, -, hrows, hgeneration⟩ := deleteObject_some hdelete
      have hcatalog : tables.catalog =
          ⟨store.tables.generation, Function.update store.tables.catalog.created key none⟩ := by
        rw [ObjectTables.catalog, hgeneration, hrows]
        refine congrArg (Catalog.mk _) (funext fun other => ?_)
        rw [ExtTreeMap.getElem?_erase]
        by_cases he : other = key
        · simp [he]
        · simp [he, Ne.symm he, ObjectTables.catalog]
      change CatalogStep _ _ _ tables.catalog
      rw [hcatalog]
      exact .delete rfl
    · exact .other (fun _ _ _ _ _ hs => by cases hs) fun _ _ => nofun
    · exact .other (fun _ _ _ _ _ hs => by cases hs) fun _ _ => nofun
  | metadata key => exact .idle nofun nofun
  | media key => exact .idle nofun nofun
  | list bucket query => exact .idle nofun nofun
  | reopen =>
    have hsame : store.reopen.2.tables = store.tables := by
      unfold PersistentStore.reopen
      split <;> rfl
    change CatalogStep _ _ _ store.reopen.2.tables.catalog
    rw [hsame]
    exact .idle nofun nofun
  | others outbox => exact .idle nofun nofun

end FirebaseEmu.Storage
