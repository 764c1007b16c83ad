import FirebaseEmu.Storage.History
import FirebaseEmu.Storage.Survival

namespace FirebaseEmu.Storage
open Lib Std
open Functions (Outbox)
open Firestore (outboxCapacity)

/-- The metadata of an object without its download token. -/
def tokenless : Json → Json
  | .object entries => .object (entries.filter fun entry => entry.1 != "downloadTokens")
  | json => json

def eachTokenless : Json → Json
  | .array items => .array (items.map tokenless)
  | json => json

/-- The answer without the download tokens in it. -/
def Reply.tokenless : Reply → Reply
  | .object json => .object (Storage.tokenless json)
  | .listing (.object entries) =>
    .listing (.object (entries.map fun entry =>
      (entry.1, if entry.1 == "items" then eachTokenless entry.2 else entry.2)))
  | reply => reply

/-- What both backends keep of an object. -/
def StoredObject.bare (object : StoredObject) : StoredObject :=
  { object with bytes := none, blobName := none, downloadToken := "" }

variable {μ π : Type} {codec : StorageCodec μ} {event : String → Json → π}

theorem optional_filter (key : String) (value : Option String) (h : key ≠ "downloadTokens") :
    (optional key value).filter (fun entry => entry.1 != "downloadTokens") =
      optional key value := by
  cases value <;> simp [optional, h]

theorem tokenless_objectJson (object : StoredObject) :
    tokenless (objectJson object) = .object (objectFields object []) := by
  simp (disch := decide) only [tokenless, objectJson, objectFields, List.filter_append,
    optional_filter]
  rfl

theorem objectFields_bare (object : StoredObject) (token : List (String × Json)) :
    objectFields object token = objectFields object.bare token := rfl

theorem tokenless_listJson (entries : List (String × Option StoredObject))
    (token : Option String) :
    (Reply.listing (listJson objectJson entries token)).tokenless =
      .listing (listJson (fun object => .object (objectFields object [])) entries token) := by
  cases token <;> simp [Reply.tokenless, listJson, eachTokenless, optional, tokenless_objectJson]

theorem tokenless_listReply (matching : List StoredObject) (query : ListQuery) :
    (listReply codec objectJson matching query).tokenless =
      listReply codec (fun object => .object (objectFields object [])) matching query := by
  unfold listReply
  dsimp only
  split
  · rfl
  · exact tokenless_listJson _ _

/-- A listing shows of its objects only what both backends keep. -/
theorem listEntries_bare (pre : String) (delimiter : Option String)
    (matching : List StoredObject) :
    (listEntries pre delimiter matching).map
        (fun entry => (entry.1, entry.2.map StoredObject.bare)) =
      listEntries pre delimiter (matching.map StoredObject.bare) := by
  have hsort : ∀ entries : List (String × Option StoredObject),
      (entries.mergeSort fun a b => decide (a.1 ≤ b.1)).map
          (fun entry => (entry.1, entry.2.map StoredObject.bare)) =
        (entries.map fun entry => (entry.1, entry.2.map StoredObject.bare)).mergeSort
          fun a b => decide (a.1 ≤ b.1) :=
    fun entries => List.map_mergeSort fun _ _ _ _ => rfl
  unfold listEntries
  dsimp only
  rw [hsort, List.map_append, List.map_map, List.map_map, List.filter_map, List.map_map,
    List.filterMap_map]
  rfl

theorem listReply_bare (matching : List StoredObject) (query : ListQuery) :
    listReply codec (fun object => .object (objectFields object [])) matching query =
      listReply codec (fun object => .object (objectFields object []))
        (matching.map StoredObject.bare) query := by
  unfold listReply
  dsimp only
  split
  · rfl
  · rw [← listEntries_bare, List.length_map, ← List.map_drop, ← List.map_take]
    congr 1
    simp only [listJson, List.filterMap_map, List.filter_map, List.map_map, Function.comp_def,
      Option.isNone_map]
    congr 5
    rw [List.map_filterMap, List.map_filterMap]
    refine congrArg Json.array (List.filterMap_congr fun entry _ => ?_)
    cases entry.2 <;> rfl

def NoNul (text : String) : Prop := '\x00' ∉ text.toList

theorem sqlText_of_noNul {text : String} (h : NoNul text) : sqlText text = text.toList := by
  refine List.takeWhile_eq_self_iff.mpr fun c hc => ?_
  have hne : c ≠ '\x00' := by
    rintro rfl
    exact h hc
  simpa using hne

/-- Without NUL characters SQLite looks for a prefix as the other backend does. -/
theorem sqlStartsWith_eq {name pre : String} (hname : NoNul name) (hpre : NoNul pre) :
    sqlStartsWith name pre = startsWith name pre := by
  rw [sqlStartsWith, startsWith, sqlText_of_noNul hname, sqlText_of_noNul hpre, Bool.eq_iff_iff,
    beq_iff_eq, List.isPrefixOf_iff_prefix, List.prefix_iff_eq_take, ← String.toList_inj,
    String.toList_ofList]
  exact eq_comm

/-- A row and its blob file keep the object. -/
structure Kept (codec : StorageCodec μ) (disk : Disk) (key : ObjectKey) (object : StoredObject)
    (row : ObjectRow μ) (stored : StoredObject) (bytes : Bytes) : Prop where
  decoded : storedObject codec key row = .ok stored
  same : stored.bare = object.bare
  content : object.bytes = some bytes
  blob : disk.blobs[row.blobName]? = some bytes
  size : stored.size = bytes.length
  crc32c : stored.crc32c = codec.crc32c bytes
  name : NoNul key.name
  canonical : canonicalUuid row.blobName = true

/-- The two backends hold the same objects. -/
structure Same (codec : StorageCodec μ) (drawn : List String) (data : StorageData)
    (store : PersistentStore μ π) : Prop where
  generation : data.nextGeneration = store.tables.generation
  temporary : store.disk.temporary = ∅
  missing : ∀ key : ObjectKey, data.objects[key]? = none → store.tables.rows[key]? = none
  kept : ∀ (key : ObjectKey) (object : StoredObject), data.objects[key]? = some object →
    ∃ (row : ObjectRow μ) (stored : StoredObject) (bytes : Bytes),
    store.tables.rows[key]? = some row ∧ Kept codec store.disk key object row stored bytes
  drawn : ∀ (key : ObjectKey) (row : ObjectRow μ), store.tables.rows[key]? = some row →
    row.blobName ∈ drawn
  distinct : ∀ (key key' : ObjectKey) (row row' : ObjectRow μ),
    store.tables.rows[key]? = some row → store.tables.rows[key']? = some row' →
      row.blobName = row'.blobName → key = key'

/-- Names of new objects, and prefixes to list, have no NUL. -/
def Admissible : StorageRequest π → Prop
  | .save key _ _ _ => NoNul key.name
  | .list _ query => NoNul (query.pre.getD "")
  | _ => True

/-- The outbox has room for an event. -/
def ObjectTables.HasRoom (tables : ObjectTables μ π) : Prop :=
  tables.eventsEnabled = false ∨ tables.outbox.outstanding < outboxCapacity

/-- What the request records finds room. -/
def PersistentStore.HasRoom (store : PersistentStore μ π) : StorageRequest π → Prop
  | .save _ _ _ _ => store.tables.HasRoom
  | .delete key => key ∈ store.tables.rows → store.tables.HasRoom
  | _ => True

theorem ObjectTables.HasRoom.insertOutbox {tables : ObjectTables μ π} (h : tables.HasRoom)
    (record : Functions.OutboxRecord π) :
    ∃ outbox, tables.outbox.insertOutbox tables.eventsEnabled [record] = .ok outbox := by
  unfold Outbox.insertOutbox
  rcases h with hoff | hroom
  · exact ⟨_, by rw [hoff]; rfl⟩
  · cases tables.eventsEnabled with
    | false => exact ⟨_, rfl⟩
    | true =>
      have hnot : ¬ outboxCapacity < tables.outbox.outstanding + [record].length := by
        simp only [List.length_singleton]
        omega
      exact ⟨_, by rw [if_neg (by simp), if_neg hnot]⟩

section Agree
variable {drawn : List String} {data : StorageData} {store : PersistentStore μ π}

theorem Same.some_iff (h : Same codec drawn data store) {key : ObjectKey} {row : ObjectRow μ}
    (hr : store.tables.rows[key]? = some row) : ∃ object stored bytes,
      data.objects[key]? = some object ∧ Kept codec store.disk key object row stored bytes := by
  cases ho : data.objects[key]? with
  | none =>
    rw [h.missing key ho] at hr
    cases hr
  | some object =>
    obtain ⟨row', stored, bytes, hr', hk⟩ := h.kept key object ho
    obtain rfl : row' = row := Option.some.inj (hr'.symm.trans hr)
    exact ⟨object, stored, bytes, rfl, hk⟩

theorem Kept.created {disk : Disk} {key : ObjectKey} {object stored : StoredObject}
    {row : ObjectRow μ} {bytes : Bytes} (h : Kept codec disk key object row stored bytes) :
    row.created = object.created := by
  have hstored : stored.created = row.created := by
    have hd := h.decoded
    unfold storedObject at hd
    split at hd
    · cases hd
    · split at hd
      · cases hd
      · obtain rfl := Except.ok.inj hd
        rfl
  have hsame : stored.bare.created = object.bare.created := by rw [h.same]
  exact hstored.symm.trans hsame

theorem Same.created (h : Same codec drawn data store) (key : ObjectKey) :
    store.tables.rows[key]?.map ObjectRow.created =
      data.objects[key]?.map StoredObject.created := by
  cases ho : data.objects[key]? with
  | none => rw [h.missing key ho]; rfl
  | some object =>
    obtain ⟨row, stored, bytes, hr, hk⟩ := h.kept key object ho
    rw [hr]
    exact congrArg some hk.created

/-- Both backends make the same object of a save, but for its token. -/
theorem Same.savedObject (h : Same codec drawn data store) (save : Save)
    (now memoryToken token : String) :
    (store.tables.savedObject codec save now token).bare =
      (data.savedObject codec save.key save.bytes save.metadata save.fallbackContentType now
        memoryToken).bare := by
  simp only [ObjectTables.savedObject, StorageData.savedObject, newObject, StoredObject.bare,
    h.generation, h.created]

theorem tokenless_object {object object' : StoredObject} (h : object.bare = object'.bare) :
    (Reply.object (objectJson object)).tokenless =
      (Reply.object (objectJson object')).tokenless := by
  simp only [Reply.tokenless, tokenless_objectJson]
  rw [objectFields_bare, h, ← objectFields_bare]

theorem Same.metadata (h : Same codec drawn data store) (key : ObjectKey) :
    (match data.objects[key]? with
      | some object => Reply.object (objectJson object)
      | none => .notFound).tokenless =
    (match store.tables.persistentObject codec key with
      | .ok (some object) => Reply.object (objectJson object)
      | .ok none => .notFound
      | .error error => persistenceFailure error).tokenless := by
  unfold ObjectTables.persistentObject
  cases ho : data.objects[key]? with
  | none =>
    rw [h.missing key ho]
  | some object =>
    obtain ⟨row, stored, bytes, hr, hk⟩ := h.kept key object ho
    rw [hr]
    simp only [hk.decoded, Except.map]
    exact tokenless_object hk.same.symm

/-- A media response shows of its object only what both backends keep, and the bytes. -/
theorem mediaResponse_bare {object object' : StoredObject} (h : object.bare = object'.bare)
    (hbytes : object.bytes = object'.bytes) : mediaResponse object = mediaResponse object' := by
  obtain ⟨bucket, name, bytes, blobName, size, crc32c, contentType, metadata, cacheControl,
    contentDisposition, contentEncoding, generation, created, updated, token⟩ := object
  obtain ⟨bucket', name', bytes', blobName', size', crc32c', contentType', metadata',
    cacheControl', contentDisposition', contentEncoding', generation', created', updated',
    token'⟩ := object'
  simp only [StoredObject.bare, StoredObject.mk.injEq] at h
  obtain ⟨-, -, -, -, -, rfl, rfl, -, rfl, rfl, rfl, rfl, -⟩ := h
  obtain rfl : bytes = bytes' := hbytes
  rfl

theorem Same.media (h : Same codec drawn data store) (key : ObjectKey) :
    (match data.objects[key]? with
      | some object => mediaResponse object
      | none => .notFound) = store.media codec key := by
  unfold PersistentStore.media ObjectTables.persistentObject
  cases ho : data.objects[key]? with
  | none =>
    rw [h.missing key ho]
  | some object =>
    obtain ⟨row, stored, bytes, hr, hk⟩ := h.kept key object ho
    have hname := (storedObject_ok hk.decoded).2
    have hthere : store.disk.blobs.contains row.blobName = true := by
      rw [ExtTreeMap.contains_eq_isSome_getElem?, hk.blob]
      rfl
    have hread : store.disk.readBlob codec stored row.blobName = .ok bytes := by
      rw [Disk.readBlob, hk.blob]
      simp [hk.size, hk.crc32c]
    have hinspect : store.disk.inspectBlob stored = .ok row.blobName := by
      rw [Disk.inspectBlob, hname]
      simp [hk.canonical, hthere]
    rw [hr]
    simp only [hk.decoded, Except.map, hinspect, hread]
    exact mediaResponse_bare hk.same.symm hk.content

/-- The object of a row, where it can be decoded. -/
def decoded (codec : StorageCodec μ) (key : ObjectKey) (row : ObjectRow μ) :
    Option StoredObject :=
  (storedObject codec key row).toOption.map StoredObject.bare

theorem Kept.decoded_eq {disk : Disk} {key : ObjectKey} {object stored : StoredObject}
    {row : ObjectRow μ} {bytes : Bytes} (h : Kept codec disk key object row stored bytes) :
    Storage.decoded codec key row = some object.bare := by
  rw [Storage.decoded, h.decoded, ← h.same]
  rfl

/-- In key order both backends have the same objects. -/
theorem Same.toList (h : Same codec drawn data store) :
    data.objects.toList.map (fun entry => (entry.1, some entry.2.bare)) =
      store.tables.rows.toList.map fun entry => (entry.1, decoded codec entry.1 entry.2) := by
  have hmaps : data.objects.map (fun _ object => some object.bare) =
      store.tables.rows.map (decoded codec) := by
    apply ExtTreeMap.ext_getElem?
    intro key
    rw [ExtTreeMap.getElem?_map, ExtTreeMap.getElem?_map]
    cases ho : data.objects[key]? with
    | none => rw [h.missing key ho]; rfl
    | some object =>
      obtain ⟨row, stored, bytes, hr, hk⟩ := h.kept key object ho
      rw [hr]
      exact congrArg some hk.decoded_eq.symm
  have hlists := congrArg ExtTreeMap.toList hmaps
  rwa [ExtTreeMap.toList_map, ExtTreeMap.toList_map] at hlists

theorem Kept.key {disk : Disk} {key : ObjectKey} {object stored : StoredObject}
    {row : ObjectRow μ} {bytes : Bytes} (h : Kept codec disk key object row stored bytes) :
    object.key = key := by
  have hsame : stored.bare.key = object.bare.key := by rw [h.same]
  exact hsame.symm.trans (storedObject_ok h.decoded).1

/-- Rows that can all be decoded, as a listing decodes them. -/
theorem mapM_decoded (entries : List (ObjectKey × ObjectRow μ))
    (h : ∀ entry ∈ entries, ∃ object, storedObject codec entry.1 entry.2 = .ok object) :
    ∃ objects, entries.mapM (fun entry => storedObject codec entry.1 entry.2) = .ok objects ∧
      objects.map (fun object => some object.bare) =
        entries.map fun entry => decoded codec entry.1 entry.2 := by
  induction entries with
  | nil => exact ⟨[], rfl, rfl⟩
  | cons entry entries ih =>
    obtain ⟨object, ho⟩ := h entry List.mem_cons_self
    obtain ⟨objects, hm, he⟩ := ih fun other hother => h other (List.mem_cons_of_mem _ hother)
    refine ⟨object :: objects, ?_, ?_⟩
    · rw [List.mapM_cons, ho, hm]
      rfl
    · rw [List.map_cons, List.map_cons, he, decoded, ho]
      rfl

/-- An entry is listed when its key is of the bucket and has the prefix. -/
def listed {α : Type} (bucket pre : String) (entry : ObjectKey × α) : Bool :=
  entry.1.bucket == bucket && startsWith entry.1.name pre

def byName {α : Type} (left right : ObjectKey × α) : Bool :=
  decide (left.1.name ≤ right.1.name)

/-- What is done to the values leaves the entries that are listed, and their order. -/
theorem map_listed {α β : Type} (bucket pre : String) (f : ObjectKey → α → β)
    (entries : List (ObjectKey × α)) :
    ((entries.filter (listed bucket pre)).mergeSort byName).map
        (fun entry => (entry.1, f entry.1 entry.2)) =
      ((entries.map fun entry => (entry.1, f entry.1 entry.2)).filter
        (listed bucket pre)).mergeSort byName := by
  rw [List.filter_map]
  exact List.map_mergeSort fun _ _ _ _ => rfl

theorem Same.matching_memory (h : Same codec drawn data store) (bucket pre : String) :
    data.matching bucket pre =
      ((data.objects.toList.filter (listed bucket pre)).mergeSort byName).map Prod.snd := by
  have hkey : ∀ entry ∈ data.objects.toList, entry.2.key = entry.1 := by
    intro entry hm
    obtain ⟨row, stored, bytes, -, hk⟩ := h.kept entry.1 entry.2
      (ExtTreeMap.mem_toList_iff_getElem?_eq_some.mp hm)
    exact hk.key
  have hnames : ∀ a ∈ data.objects.toList.filter (listed bucket pre),
      ∀ b ∈ data.objects.toList.filter (listed bucket pre),
        byName a b = decide (a.2.name ≤ b.2.name) := by
    intro a ha b hb
    rw [byName, ← hkey a (List.mem_of_mem_filter ha), ← hkey b (List.mem_of_mem_filter hb)]
    rfl
  rw [List.map_mergeSort (s := fun a b => decide (a.name ≤ b.name)) hnames,
    StorageData.matching, List.filter_map]
  congr 2
  refine List.filter_congr fun entry hm => ?_
  rw [listed, ← hkey entry hm]
  rfl

theorem Same.matching (h : Same codec drawn data store) (bucket : String) {pre : String}
    (hpre : NoNul pre) : ∃ objects, store.matching codec bucket pre = .ok objects ∧
      objects.map StoredObject.bare = (data.matching bucket pre).map StoredObject.bare := by
  have hrows : store.tables.rows.toList.filter (fun entry =>
      entry.1.bucket == bucket && sqlStartsWith entry.1.name pre) =
        store.tables.rows.toList.filter (listed bucket pre) := by
    refine List.filter_congr fun entry hm => ?_
    obtain ⟨object, stored, bytes, -, hk⟩ :=
      h.some_iff (ExtTreeMap.mem_toList_iff_getElem?_eq_some.mp hm)
    rw [listed, sqlStartsWith_eq hk.name hpre]
  have hdecodes : ∀ entry ∈ (store.tables.rows.toList.filter (listed bucket pre)).mergeSort byName,
      ∃ object, storedObject codec entry.1 entry.2 = .ok object := by
    intro entry hm
    rw [List.mem_mergeSort] at hm
    obtain ⟨object, stored, bytes, -, hk⟩ :=
      h.some_iff (ExtTreeMap.mem_toList_iff_getElem?_eq_some.mp (List.mem_of_mem_filter hm))
    exact ⟨stored, hk.decoded⟩
  obtain ⟨objects, hm, he⟩ := mapM_decoded _ hdecodes
  refine ⟨objects, ?_, ?_⟩
  · rw [PersistentStore.matching, hrows]
    exact hm
  · have hmemory : ((data.matching bucket pre).map StoredObject.bare).map some =
        (((data.objects.toList.filter (listed bucket pre)).mergeSort byName).map
          fun entry => (entry.1, some entry.2.bare)).map Prod.snd := by
      rw [h.matching_memory, List.map_map, List.map_map, List.map_map]
      rfl
    have hstore : (objects.map StoredObject.bare).map some =
        (((store.tables.rows.toList.filter (listed bucket pre)).mergeSort byName).map
          fun entry => (entry.1, decoded codec entry.1 entry.2)).map Prod.snd := by
      rw [List.map_map, List.map_map]
      exact he
    apply List.map_injective_iff.mpr (Option.some_injective _)
    rw [hstore, hmemory, map_listed bucket pre (decoded codec), ← h.toList]
    have hbare := map_listed bucket pre
      (fun (_ : ObjectKey) (object : StoredObject) => some object.bare) data.objects.toList
    rw [hbare]

theorem Same.listing (h : Same codec drawn data store) (bucket : String) {query : ListQuery}
    (hpre : NoNul (query.pre.getD "")) :
    (listResponse codec (data.matching bucket (query.pre.getD "")) query).tokenless =
      (match store.matching codec bucket (query.pre.getD "") with
      | .ok matching => listResponse codec matching query
      | .error error => persistenceFailure error).tokenless := by
  obtain ⟨objects, hm, hbare⟩ := h.matching bucket hpre
  rw [hm]
  unfold listResponse
  rw [tokenless_listReply, tokenless_listReply, listReply_bare, ← hbare, ← listReply_bare]

/-- The blob of another row stays when a save has stored its own and removed the old one. -/
theorem Kept.stays {disk disk' : Disk} {key : ObjectKey} {object stored : StoredObject}
    {row : ObjectRow μ} {bytes : Bytes} (h : Kept codec disk key object row stored bytes)
    (hblob : disk'.blobs[row.blobName]? = disk.blobs[row.blobName]?) :
    Kept codec disk' key object row stored bytes :=
  { h with blob := hblob.trans h.blob }

theorem Same.saveObject (event : String → Json → π) (h : Same codec drawn data store)
    (save : Save) (now token : String)
    (hfresh : save.blobName ∉ drawn) (hroom : store.tables.HasRoom) :
    ∃ tables, store.tables.saveObject codec event save now token =
      .ok (tables, store.tables.savedObject codec save now token,
        store.tables.rows[save.key]?.map ObjectRow.blobName) := by
  have hunique : (store.tables.rows.toList.any fun entry =>
      entry.1 != save.key && entry.2.blobName == save.blobName) = false := by
    rw [List.any_eq_false]
    intro entry hm
    have hdrawn := h.drawn _ _ (ExtTreeMap.mem_toList_iff_getElem?_eq_some.mp hm)
    have hne : entry.2.blobName ≠ save.blobName := fun he => hfresh (he ▸ hdrawn)
    simp [hne]
  obtain ⟨outbox, ho⟩ := hroom.insertOutbox
    (storageOutboxRecord event "finalize" (store.tables.savedObject codec save now token))
  unfold ObjectTables.saveObject
  simp only [hunique, ho]
  exact ⟨_, rfl⟩

/-- The files of a save that is answered. -/
def Disk.saved (disk : Disk) (save : Save) (old : Option String) : Disk :=
  let stored : Disk := ⟨disk.blobs.insert save.blobName save.bytes,
    (disk.temporary.insert save.temporaryName save.bytes).erase save.temporaryName⟩
  match old.filter (· != save.blobName) with
  | some old => stored.removeBlob old
  | none => stored

theorem saved_temporary {disk : Disk} (save : Save) (old : Option String)
    (h : disk.temporary = ∅) : (disk.saved save old).temporary = ∅ := by
  have hstored : (disk.temporary.insert save.temporaryName save.bytes).erase
      save.temporaryName = ∅ := by
    apply ExtTreeMap.ext_getElem?
    intro name
    rw [h]
    by_cases hn : save.temporaryName = name
    · simp [hn]
    · simp [hn]
  unfold Disk.saved
  dsimp only
  split
  · rw [removeBlob_temporary, hstored]
  · exact hstored

theorem saved_own {disk : Disk} (save : Save) (old : Option String) :
    (disk.saved save old).blobs[save.blobName]? = some save.bytes := by
  unfold Disk.saved
  dsimp only
  split
  · rename_i name hname
    obtain ⟨-, hne⟩ := Option.filter_eq_some_iff.mp hname
    rw [removeBlob_other fun he => by simp [he] at hne]
    exact ExtTreeMap.getElem?_insert_self
  · exact ExtTreeMap.getElem?_insert_self

theorem saved_other {disk : Disk} {save : Save} {old : Option String} {name : String}
    (hsave : save.blobName ≠ name) (hold : old ≠ some name) :
    (disk.saved save old).blobs[name]? = disk.blobs[name]? := by
  have hstored : (disk.blobs.insert save.blobName save.bytes)[name]? = disk.blobs[name]? := by
    simp [ExtTreeMap.getElem?_insert, hsave]
  unfold Disk.saved
  dsimp only
  split
  · rename_i removed hremoved
    obtain ⟨ho, -⟩ := Option.filter_eq_some_iff.mp hremoved
    rw [removeBlob_other fun he => hold (ho.trans (congrArg some he.symm))]
    exact hstored
  · exact hstored

theorem Same.save (h : Same codec drawn data store) (save : Save) (now memoryToken token : String)
    (hname : NoNul save.key.name) (hcanonical : canonicalUuid save.blobName = true)
    (hfresh : save.blobName ∉ drawn) (hroom : store.tables.HasRoom) :
    (data.saveObject codec save.key save.bytes save.metadata save.fallbackContentType now
        memoryToken).1.tokenless = (store.saveObject codec event save now token).1.tokenless ∧
      Same codec (save.blobName :: drawn)
        (data.saveObject codec save.key save.bytes save.metadata save.fallbackContentType now
          memoryToken).2 (store.saveObject codec event save now token).2 := by
  obtain ⟨tables, hsave⟩ := h.saveObject event save now token hfresh hroom
  obtain ⟨-, hrows, hgeneration, -⟩ := saveObject_ok hsave
  have hstore : store.saveObject codec event save now token =
      (.object (objectJson (store.tables.savedObject codec save now token)),
        ⟨tables, store.disk.saved save (store.tables.rows[save.key]?.map ObjectRow.blobName)⟩) := by
    have hnone : store.disk.temporary.contains save.temporaryName = false := by
      rw [h.temporary]
      exact ExtTreeMap.contains_empty
    unfold PersistentStore.saveObject Disk.storeBlob
    simp only [hnone, hsave]
    rfl
  rw [hstore]
  have hbare := h.savedObject save now memoryToken token
  have hself : Kept codec (store.disk.saved save
      (store.tables.rows[save.key]?.map ObjectRow.blobName)) save.key
      (data.savedObject codec save.key save.bytes save.metadata save.fallbackContentType now
        memoryToken)
      (objectRow codec (store.tables.savedObject codec save now token) save.blobName
        store.tables.rows[save.key]?) (store.tables.savedObject codec save now token)
      save.bytes :=
    ⟨storedObject_savedObject _ _ _ _, hbare, rfl, saved_own _ _, rfl, rfl, hname, hcanonical⟩
  have hlookup : ∀ key, tables.rows[key]? = if save.key = key then
      some (objectRow codec (store.tables.savedObject codec save now token) save.blobName
        store.tables.rows[save.key]?) else store.tables.rows[key]? := by
    intro key
    rw [hrows, ExtTreeMap.getElem?_insert]
    simp only [LawfulEqOrd.compare_eq_iff_eq]
  have hobjects : ∀ key, (data.saveObject codec save.key save.bytes save.metadata
      save.fallbackContentType now memoryToken).2.objects[key]? = if save.key = key then
      some (data.savedObject codec save.key save.bytes save.metadata save.fallbackContentType now
        memoryToken) else data.objects[key]? := by
    intro key
    change (data.objects.insert _ _)[key]? = _
    rw [ExtTreeMap.getElem?_insert]
    simp only [LawfulEqOrd.compare_eq_iff_eq]
  refine ⟨tokenless_object hbare.symm, ?_, saved_temporary _ _ h.temporary, fun key hkey => ?_,
    fun key object hkey => ?_, fun key row hkey => ?_, fun key key' row row' hkey hkey' he => ?_⟩
  · change data.nextGeneration + 1 = tables.generation
    rw [hgeneration, h.generation]
  · rw [hobjects] at hkey
    split at hkey
    · cases hkey
    · rename_i hne
      rw [hlookup, if_neg hne]
      exact h.missing key hkey
  · rw [hobjects] at hkey
    split at hkey
    · rename_i heq
      obtain rfl := Option.some.inj hkey
      obtain rfl := heq
      exact ⟨_, _, _, (hlookup _).trans (if_pos rfl), hself⟩
    · rename_i hne
      obtain ⟨row, stored, bytes, hr, hk⟩ := h.kept key object hkey
      refine ⟨row, stored, bytes, ?_, hk.stays (saved_other ?_ ?_)⟩
      · rw [hlookup, if_neg hne]
        exact hr
      · exact fun he => hfresh (he ▸ h.drawn key row hr)
      · intro he
        obtain ⟨old, hold, hb⟩ := Option.map_eq_some_iff.mp he
        exact hne (h.distinct _ _ _ _ hold hr hb)
  · rw [hlookup] at hkey
    split at hkey
    · obtain rfl := Option.some.inj hkey
      exact List.mem_cons_self
    · exact List.mem_cons_of_mem _ (h.drawn key row hkey)
  · rw [hlookup] at hkey hkey'
    split at hkey <;> split at hkey'
    · rename_i h₁ h₂
      exact h₁.symm.trans h₂
    · obtain rfl := Option.some.inj hkey
      exact absurd (h.drawn key' row' hkey') (he ▸ hfresh)
    · obtain rfl := Option.some.inj hkey'
      exact absurd (h.drawn key row hkey) (he ▸ hfresh)
    · exact h.distinct key key' row row' hkey hkey' he

theorem Same.delete (event : String → Json → π) (h : Same codec drawn data store) (key : ObjectKey)
    (hroom : key ∈ store.tables.rows → store.tables.HasRoom) :
    (data.deleteObject key).1 = (store.deleteObject codec event key).1 ∧
      Same codec drawn (data.deleteObject key).2 (store.deleteObject codec event key).2 := by
  unfold StorageData.deleteObject PersistentStore.deleteObject ObjectTables.deleteObject
  cases ho : data.objects[key]? with
  | none =>
    rw [h.missing key ho]
    exact ⟨rfl, h⟩
  | some object =>
    obtain ⟨row, stored, bytes, hr, hk⟩ := h.kept key object ho
    obtain ⟨outbox, hinsert⟩ := (hroom (mem_of_getElem? hr)).insertOutbox
      (storageOutboxRecord event "delete" stored)
    simp only [hr, hk.decoded, hinsert]
    have herase : ∀ {α : Type} (m : ExtTreeMap ObjectKey α) (other : ObjectKey),
        (m.erase key)[other]? = if key = other then none else m[other]? := by
      intro α m other
      rw [ExtTreeMap.getElem?_erase]
      simp only [LawfulEqOrd.compare_eq_iff_eq]
    refine ⟨trivial, h.generation, removeBlob_temporary.trans h.temporary, fun other hother => ?_,
      fun other object' hother => ?_, fun other row' hother => ?_,
      fun other other' row' row'' hother hother' => ?_⟩
    · rw [herase] at hother ⊢
      split
      · rfl
      · rename_i hne
        rw [if_neg hne] at hother
        exact h.missing other hother
    · rw [herase] at hother
      split at hother
      · cases hother
      · rename_i hne
        obtain ⟨row', stored', bytes', hr', hk'⟩ := h.kept other object' hother
        refine ⟨row', stored', bytes', ?_, hk'.stays (removeBlob_other fun he => ?_)⟩
        · rw [herase, if_neg hne]
          exact hr'
        · exact hne (h.distinct _ _ _ _ hr hr' he.symm)
    · rw [herase] at hother
      split at hother
      · cases hother
      · exact h.drawn other row' hother
    · rw [herase] at hother hother'
      split at hother
      · cases hother
      · split at hother'
        · cases hother'
        · exact h.distinct other other' row' row'' hother hother'

/-- A start of the persistent backend succeeds, and leaves the objects as they are. -/
theorem Same.reopen (h : Same codec drawn data store) :
    store.reopen.1 = .noContent ∧ Same codec drawn data store.reopen.2 := by
  have hthere : ∀ name ∈ store.tables.referenced,
      (!canonicalUuid name || !store.disk.blobs.contains name) = false := by
    intro name hm
    obtain ⟨key, row, hr, rfl⟩ := mem_referenced.mp hm
    obtain ⟨object, stored, bytes, -, hk⟩ := h.some_iff hr
    have hblob : store.disk.blobs.contains row.blobName = true := by
      rw [ExtTreeMap.contains_eq_isSome_getElem?, hk.blob]
      rfl
    simp [hk.canonical, hblob]
  have hfind : store.tables.referenced.find?
      (fun name => !canonicalUuid name || !store.disk.blobs.contains name) = none := by
    rw [List.find?_eq_none]
    intro name hm
    simpa using hthere name hm
  unfold PersistentStore.reopen Disk.recoverBlobs
  simp only [hfind]
  refine ⟨trivial, h.generation, rfl, h.missing, fun key object ho => ?_, h.drawn, h.distinct⟩
  obtain ⟨row, stored, bytes, hr, hk⟩ := h.kept key object ho
  refine ⟨row, stored, bytes, hr, hk.stays ?_⟩
  rw [getElem?_filterKeys,
    if_pos (List.contains_iff_mem.mpr (mem_referenced.mpr ⟨key, row, hr, rfl⟩))]

theorem Same.others (h : Same codec drawn data store) (outbox : Outbox π) :
    Same codec drawn data { store with tables := { store.tables with outbox } } :=
  ⟨h.generation, h.temporary, h.missing, h.kept, h.drawn, h.distinct⟩

theorem Same.more (h : Same codec drawn data store) (name : String) :
    Same codec (name :: drawn) data store :=
  { h with drawn := fun key row hr => List.mem_cons_of_mem _ (h.drawn key row hr) }

/-- The name drawn for the call is a blob id, and none that was drawn before. -/
def StorageCall.Fresh (drawn : List String) (call : StorageCall π) : Prop :=
  canonicalUuid call.draws.blobName = true ∧ call.draws.blobName ∉ drawn

theorem Same.step (event : String → Json → π) (h : Same codec drawn data store) (call : StorageCall π)
    (hadm : Admissible call.request) (hfresh : call.Fresh drawn)
    (hroom : store.HasRoom call.request) :
    (data.handle codec call).1.tokenless = (store.handle codec event call).1.tokenless ∧
      Same codec (call.draws.blobName :: drawn) (data.handle codec call).2
        (store.handle codec event call).2 := by
  obtain ⟨request, now, memoryToken, draws⟩ := call
  cases request with
  | save key bytes metadata fallbackContentType =>
    exact h.save ⟨key, bytes, metadata, fallbackContentType, draws.blobName,
      draws.temporaryName⟩ now memoryToken draws.token hadm hfresh.1 hfresh.2 hroom
  | delete key =>
    obtain ⟨hreply, hsame⟩ := h.delete event key hroom
    exact ⟨congrArg Reply.tokenless hreply, hsame.more _⟩
  | metadata key => exact ⟨h.metadata key, h.more _⟩
  | media key => exact ⟨congrArg Reply.tokenless (h.media key), h.more _⟩
  | list bucket query => exact ⟨h.listing bucket hadm, h.more _⟩
  | reopen =>
    obtain ⟨hreply, hsame⟩ := h.reopen
    exact ⟨congrArg Reply.tokenless hreply.symm, hsame.more _⟩
  | others outbox => exact ⟨rfl, (h.others outbox).more _⟩

/-- Along a run the answers of the two backends differ in nothing but tokens. -/
theorem Same.history (h : Same codec drawn data store) (calls : List (StorageCall π))
    (hadm : ∀ call ∈ calls, Admissible call.request)
    (hcanonical : ∀ call ∈ calls, canonicalUuid call.draws.blobName = true)
    (hnodup : (calls.map fun call => call.draws.blobName).Nodup)
    (hfresh : ∀ call ∈ calls, call.draws.blobName ∉ drawn)
    (hroom : Reach.Along (fun store call => (store.handle codec event call).2)
      (fun store call => store.HasRoom call.request) store calls) :
    (history (StorageData.handle codec) data calls).map (fun served => served.2.tokenless) =
      (history (PersistentStore.handle codec event) store calls).map
        fun served => served.2.tokenless := by
  induction calls generalizing drawn data store with
  | nil => rfl
  | cons call calls ih =>
    rw [List.map_cons, List.nodup_cons] at hnodup
    obtain ⟨hreply, hsame⟩ := h.step event call (hadm call List.mem_cons_self)
      ⟨hcanonical call List.mem_cons_self, hfresh call List.mem_cons_self⟩ hroom.1
    have hlater : ∀ other ∈ calls, other.draws.blobName ∉ call.draws.blobName :: drawn := by
      intro other hm
      rw [List.mem_cons, not_or]
      refine ⟨fun he => hnodup.1 ?_, hfresh other (List.mem_cons_of_mem _ hm)⟩
      exact he ▸ List.mem_map_of_mem hm
    have hrest := ih hsame (fun other hm => hadm other (List.mem_cons_of_mem _ hm))
      (fun other hm => hcanonical other (List.mem_cons_of_mem _ hm)) hnodup.2 hlater hroom.2
    unfold Storage.history
    rw [List.map_cons, List.map_cons, hreply, hrest]

theorem same_empty (eventsEnabled : Bool) :
    Same codec [] .empty (.empty eventsEnabled : PersistentStore μ π) := by
  have hobjects : ∀ key : ObjectKey, StorageData.empty.objects[key]? = none :=
    fun key => ExtTreeMap.getElem?_empty
  have hrows : ∀ key : ObjectKey,
      (PersistentStore.empty eventsEnabled : PersistentStore μ π).tables.rows[key]? = none :=
    fun key => ExtTreeMap.getElem?_empty
  refine ⟨rfl, rfl, fun key _ => hrows key, fun key object ho => ?_, fun key row hr => ?_,
    fun key key' row row' hr => ?_⟩
  · rw [hobjects] at ho
    cases ho
  · rw [hrows] at hr
    cases hr
  · rw [hrows] at hr
    cases hr

end Agree

/-- The persistent backend draws fresh blob ids. -/
def FreshDraws (calls : List (StorageCall π)) : Prop :=
  (∀ call ∈ calls, canonicalUuid call.draws.blobName = true) ∧
    (calls.map fun call => call.draws.blobName).Nodup

/-- No save, and no delete of an object, comes while the outbox of the persistent backend is
full. -/
def NeverFull (codec : StorageCodec μ) (event : String → Json → π) (eventsEnabled : Bool)
    (calls : List (StorageCall π)) : Prop :=
  Reach.Along (fun store call => (store.handle codec event call).2)
    (fun store call => store.HasRoom call.request) (PersistentStore.empty eventsEnabled) calls

/-- From empty stores both backends answer every run alike, up to the download tokens, as long
as the outbox is never full; and in each, whatever is refused, saves get growing generations, an
overwrite keeps the creation time and a save after a delete starts a new one. -/
theorem storage_backends_agree (codec : StorageCodec μ) (event : String → Json → π)
    (eventsEnabled : Bool) (calls : List (StorageCall π)) :
    let memory := history (StorageData.handle codec) .empty calls
    let persistent := history (PersistentStore.handle codec event) (.empty eventsEnabled) calls
    ((∀ call ∈ calls, Admissible call.request) ∧ FreshDraws calls ∧
        NeverFull codec event eventsEnabled calls →
      memory.map (fun served => served.2.tokenless) =
        persistent.map fun served => served.2.tokenless) ∧
    Growing 0 memory ∧ Growing 0 persistent ∧
    CreationsKept (fun _ => none) memory ∧ CreationsKept (fun _ => none) persistent := by
  have hmemory : StorageData.empty.catalog.known = fun _ => none := by
    rw [StorageData.catalog_empty]
    rfl
  have hpersistent : (ObjectTables.empty eventsEnabled : ObjectTables μ π).catalog.known =
      fun _ => none := by
    rw [ObjectTables.catalog_empty]
    rfl
  refine ⟨fun ⟨hadm, ⟨hcanonical, hnodup⟩, hroom⟩ => ?_, ?_, ?_, ?_, ?_⟩
  · exact (same_empty eventsEnabled).history calls hadm hcanonical hnodup
      (fun _ _ => List.not_mem_nil) hroom
  · exact growing_of_steps StorageData.catalog StorageData.catalogStep .empty calls
  · exact growing_of_steps (fun store : PersistentStore μ π => store.tables.catalog)
      PersistentStore.catalogStep (.empty eventsEnabled) calls
  · exact hmemory ▸
      creationsKept_of_steps StorageData.catalog StorageData.catalogStep .empty calls
  · exact hpersistent ▸
      creationsKept_of_steps (fun store : PersistentStore μ π => store.tables.catalog)
        PersistentStore.catalogStep (.empty eventsEnabled) calls

def sampleCall (request : StorageRequest Unit) (blobName : String) : StorageCall Unit :=
  ⟨request, "now", "memory", ⟨blobName, "upload-1.tmp", "sqlite"⟩⟩

def sampleUpload : StorageRequest Unit :=
  .save ⟨"bucket", "file"⟩ [1] ⟨none, none, none, none, []⟩ none

theorem sampleUpload_admissible : Admissible sampleUpload :=
  (by decide : '\x00' ∉ "file".toList)

/-- A save and a GET of its bytes. -/
theorem storage_backends_agree_sample :
    (history (StorageData.handle plainStorageCodec) .empty
        [sampleCall sampleUpload sampleBlob,
          sampleCall (.media ⟨"bucket", "file"⟩) sampleNextBlob]).map
        (fun served => served.2.tokenless) =
      (history (PersistentStore.handle plainStorageCodec fun _ _ => ()) (.empty true)
        [sampleCall sampleUpload sampleBlob,
          sampleCall (.media ⟨"bucket", "file"⟩) sampleNextBlob]).map
        fun served => served.2.tokenless := by
  refine (storage_backends_agree plainStorageCodec (fun _ _ => ()) true _).1 ⟨?_, ⟨?_, ?_⟩, ?_⟩
  · rw [List.forall_mem_cons, List.forall_mem_singleton]
    exact ⟨sampleUpload_admissible, trivial⟩
  · rw [List.forall_mem_cons, List.forall_mem_singleton]
    exact (by decide : canonicalUuid sampleBlob = true ∧
      canonicalUuid sampleNextBlob = true)
  · exact (by decide : [sampleBlob, sampleNextBlob].Nodup)
  · refine ⟨.inr ?_, trivial, trivial⟩
    change 0 < outboxCapacity
    decide

/-- Without room for its event a save is refused and leaves the tables as they are. -/
theorem PersistentStore.saveObject_full (codec : StorageCodec μ) (event : String → Json → π)
    (store : PersistentStore μ π) (h : ¬ store.tables.HasRoom) (save : Save) (now token : String) : ∃ error,
      (store.saveObject codec event save now token).1 = persistenceFailure error ∧
        (store.saveObject codec event save now token).2.tables = store.tables := by
  have hinsert : ∀ record, store.tables.outbox.insertOutbox store.tables.eventsEnabled [record] =
      .error store.tables.outbox.outstanding := by
    intro record
    obtain ⟨hon, hfull⟩ := not_or.mp h
    have hlt : outboxCapacity < store.tables.outbox.outstanding + [record].length := by
      simp only [List.length_singleton]
      omega
    rw [Outbox.insertOutbox, if_neg (by simpa using hon), if_pos hlt]
  have htables : ∃ error, store.tables.saveObject codec event save now token = .error error := by
    unfold ObjectTables.saveObject
    simp only [hinsert]
    split
    · exact ⟨_, rfl⟩
    · exact ⟨_, rfl⟩
  unfold PersistentStore.saveObject
  split
  · exact ⟨_, rfl, rfl⟩
  · obtain ⟨error, he⟩ := htables
    simp only [he]
    exact ⟨_, rfl, trivial⟩

/-- With a full outbox the persistent backend refuses a save that the in-memory one serves. -/
theorem storage_backends_differ_when_outbox_full :
    ¬ ∀ calls : List (StorageCall Unit), (∀ call ∈ calls, Admissible call.request) →
      FreshDraws calls →
      (history (StorageData.handle plainStorageCodec) .empty calls).map
          (fun served => served.2.tokenless) =
        (history (PersistentStore.handle plainStorageCodec fun _ _ => ()) (.empty true) calls).map
          fun served => served.2.tokenless := by
  intro h
  obtain ⟨outbox, hfull⟩ := Outbox.exists_outstanding ⟨"storage", ()⟩ outboxCapacity
  have heq := h [sampleCall (.others outbox) sampleBlob,
    sampleCall sampleUpload sampleNextBlob] ?_ ⟨?_, ?_⟩
  · have hnoroom : ¬ ({ (ObjectTables.empty true : ObjectTables StoredMetadata Unit) with
        outbox } : ObjectTables StoredMetadata Unit).HasRoom := by
      rintro (hoff | hlt)
      · cases hoff
      · exact absurd hlt (by rw [hfull]; exact Nat.lt_irrefl _)
    obtain ⟨error, hrefused, -⟩ := PersistentStore.saveObject_full plainStorageCodec
      (fun _ _ => ()) ⟨_, ⟨∅, ∅⟩⟩ hnoroom
      ⟨⟨"bucket", "file"⟩, [1], ⟨none, none, none, none, []⟩, none, sampleNextBlob,
        "upload-1.tmp"⟩ "now" "sqlite"
    obtain ⟨-, hreplies⟩ := List.cons.inj heq
    have hreply := (List.cons.inj hreplies).1
    have hsaved := hreply.trans (congrArg Reply.tokenless hrefused)
    cases hsaved
  · intro call hm
    rcases List.mem_cons.mp hm with rfl | hm
    · trivial
    · obtain rfl := List.mem_singleton.mp hm
      exact sampleUpload_admissible
  · rw [List.forall_mem_cons, List.forall_mem_singleton]
    exact (by decide : canonicalUuid sampleBlob = true ∧
      canonicalUuid sampleNextBlob = true)
  · exact (by decide : [sampleBlob, sampleNextBlob].Nodup)

end FirebaseEmu.Storage
