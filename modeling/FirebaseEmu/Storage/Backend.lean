import FirebaseEmu.Storage.Agreement

namespace FirebaseEmu.Storage
open Lib Std

/-- Where the objects are kept. -/
inductive Backend (μ π : Type) where
  | memory (data : StorageData)
  | persistent (store : PersistentStore μ π)

def Reply.isObject : Reply → Bool
  | .object _ => true
  | _ => false

section persistent
variable {μ π : Type} {codec : StorageCodec μ} {event : String → Json → π}

/-- A save of the persistent backend is refused and leaves every row and the files they name, or
its row and its file are there. -/
theorem PersistentStore.saveObject_cases {store store' : PersistentStore μ π} {save : Save}
    {now token : String} {reply : Reply}
    (h : store.saveObject codec event save now token = (reply, store')) :
    (reply.isObject = false ∧ store'.tables.rows = store.tables.rows ∧
      ∀ name, save.blobName ≠ name → store'.disk.blobs[name]? = store.disk.blobs[name]?) ∨
    (reply.isObject = true ∧ ∃ row : ObjectRow μ, row.blobName = save.blobName ∧
      store'.tables.rows = store.tables.rows.insert save.key row ∧
      store'.disk = store.disk.saved save
        (store.tables.rows[save.key]?.map ObjectRow.blobName)) := by
  unfold PersistentStore.saveObject Disk.storeBlob at h
  split at h
  · obtain ⟨rfl, rfl⟩ := Prod.mk.inj h
    exact .inl ⟨rfl, rfl, fun _ _ => rfl⟩
  · rename_i disk hdisk
    split at hdisk
    · cases hdisk
    · obtain rfl := Except.ok.inj hdisk
      split at h
      · obtain ⟨rfl, rfl⟩ := Prod.mk.inj h
        refine .inl ⟨rfl, rfl, fun name hn => ?_⟩
        simp [ExtTreeMap.getElem?_erase, ExtTreeMap.getElem?_insert, hn]
      · rename_i tables object old hsave
        obtain ⟨-, hrows, -, hold⟩ := saveObject_ok hsave
        obtain ⟨rfl, rfl⟩ := Prod.mk.inj h
        refine .inr ⟨rfl, _, rfl, hrows, ?_⟩
        rw [← hold]
        rfl

end persistent

namespace Backend
variable {μ π : Type} (codec : StorageCodec μ) (event : String → Json → π)

def saveObject (backend : Backend μ π) (key : ObjectKey) (bytes : Bytes)
    (metadata : UploadMetadata) (fallbackContentType : Option String) (now : String)
    (draws : Draws) : Reply × Backend μ π :=
  match backend with
  | .memory data =>
    let (reply, data) := data.saveObject codec key bytes metadata fallbackContentType now draws.token
    (reply, .memory data)
  | .persistent store =>
    let (reply, store) := store.saveObject codec event ⟨key, bytes, metadata, fallbackContentType,
      draws.blobName, draws.temporaryName⟩ now draws.token
    (reply, .persistent store)

/-- The bytes of an object; the persistent backend has them in the file that its row names. -/
def content (backend : Backend μ π) (key : ObjectKey) : Option Bytes :=
  match backend with
  | .memory data => data.objects[key]?.bind StoredObject.bytes
  | .persistent store => store.tables.rows[key]?.bind fun row => store.disk.blobs[row.blobName]?

/-- No two rows name one file. -/
def Sound (backend : Backend μ π) : Prop :=
  match backend with
  | .memory _ => True
  | .persistent store => ∀ (key key' : ObjectKey) (row row' : ObjectRow μ),
    store.tables.rows[key]? = some row → store.tables.rows[key']? = some row' →
      row.blobName = row'.blobName → key = key'

/-- The name drawn for a file is not one that a row has. -/
def Fresh (backend : Backend μ π) (draws : Draws) : Prop :=
  match backend with
  | .memory _ => True
  | .persistent store => ∀ (key : ObjectKey) (row : ObjectRow μ),
    store.tables.rows[key]? = some row → row.blobName ≠ draws.blobName

variable {codec event} {backend backend' : Backend μ π} {key : ObjectKey} {bytes : Bytes}
  {metadata : UploadMetadata} {fallbackContentType : Option String} {now : String} {draws : Draws}
  {reply : Reply}

/-- A save that is answered with the object leaves its bytes there, and no save changes another
object. -/
theorem saveObject_spec (hs : backend.Sound) (hf : backend.Fresh draws)
    (h : backend.saveObject codec event key bytes metadata fallbackContentType now draws =
      (reply, backend')) :
    backend'.Sound ∧ (∀ other, key ≠ other → backend'.content other = backend.content other) ∧
      backend'.content key = if reply.isObject then some bytes else backend.content key := by
  cases backend with
  | memory data =>
    obtain ⟨rfl, rfl⟩ := Prod.mk.inj h
    refine ⟨trivial, fun other ho => ?_, ?_⟩
    · simp only [content]
      rw [ExtTreeMap.getElem?_insert, if_neg (by simpa using ho)]
    · simp only [content, ExtTreeMap.getElem?_insert_self,
        Option.bind_some, Reply.isObject, if_true]
      rfl
  | persistent store =>
    obtain ⟨store', hsave, rfl⟩ : ∃ store', store.saveObject codec event ⟨key, bytes, metadata,
        fallbackContentType, draws.blobName, draws.temporaryName⟩ now draws.token =
          (reply, store') ∧ backend' = .persistent store' := by
      obtain ⟨rfl, rfl⟩ := Prod.mk.inj h
      exact ⟨_, rfl, rfl⟩
    rcases PersistentStore.saveObject_cases hsave with
      ⟨hreply, hrows, hblobs⟩ | ⟨hreply, row, hrow, hrows, hdisk⟩
    · have hsame : ∀ other, (Backend.persistent store').content other =
          (Backend.persistent store).content other := by
        intro other
        simp only [content, hrows]
        cases hr : store.tables.rows[other]? with
        | none => rfl
        | some old => exact hblobs _ (hf other old hr).symm
      refine ⟨fun other other' old old' ho ho' => ?_, fun other _ => hsame other, ?_⟩
      · rw [hrows] at ho ho'
        exact hs other other' old old' ho ho'
      · rw [hsame, hreply]
        rfl
    · have hlookup : ∀ other, store'.tables.rows[other]? =
          if key = other then some row else store.tables.rows[other]? := by
        intro other
        rw [hrows, ExtTreeMap.getElem?_insert]
        simp only [LawfulEqOrd.compare_eq_iff_eq]
      refine ⟨fun other other' old old' ho ho' he => ?_, fun other ho => ?_, ?_⟩
      · rw [hlookup] at ho ho'
        split at ho <;> split at ho'
        · exact ‹key = other›.symm.trans ‹key = other'›
        · obtain rfl := Option.some.inj ho
          exact absurd (he.symm.trans hrow) (hf other' old' ho')
        · obtain rfl := Option.some.inj ho'
          exact absurd (he.trans hrow) (hf other old ho)
        · exact hs other other' old old' ho ho' he
      · simp only [content, hlookup, if_neg ho, hdisk]
        cases hr : store.tables.rows[other]? with
        | none => rfl
        | some old =>
          refine saved_other (hf other old hr).symm fun he => ?_
          obtain ⟨replaced, hreplaced, hname⟩ := Option.map_eq_some_iff.mp he
          exact ho (hs key other replaced old hreplaced hr hname)
      · simp only [content, hlookup, if_true, Option.bind_some, hdisk, hreply, hrow]
        exact saved_own ⟨key, bytes, metadata, fallbackContentType, draws.blobName,
          draws.temporaryName⟩ _

end Backend
end FirebaseEmu.Storage
