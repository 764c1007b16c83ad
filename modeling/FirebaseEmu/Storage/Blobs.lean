import FirebaseEmu.Storage.Lifecycle

namespace FirebaseEmu.Storage
open Lib Std

variable {μ π : Type} {codec : StorageCodec μ} {event : String → Json → π}

theorem storedObject_ok {key : ObjectKey} {row : ObjectRow μ} {object : StoredObject}
    (h : storedObject codec key row = .ok object) :
    object.key = key ∧ object.blobName = some row.blobName := by
  unfold storedObject at h
  split at h
  · cases h
  · split at h
    · cases h
    · obtain rfl := Except.ok.inj h
      exact ⟨rfl, rfl⟩

/-- What a save writes is read back as its object. -/
theorem storedObject_savedObject (tables : ObjectTables μ π) (save : Save) (now token : String) :
    storedObject codec save.key (objectRow codec (tables.savedObject codec save now token)
      save.blobName tables.rows[save.key]?) = .ok (tables.savedObject codec save now token) := by
  have hpositive : ¬ ((tables.generation + 1 : Nat) : Int) ≤ 0 := by omega
  have hcreated : (tables.rows[save.key]?.map ObjectRow.created).getD
      ((tables.rows[save.key]?.map ObjectRow.created).getD now) =
        (tables.rows[save.key]?.map ObjectRow.created).getD now := by
    cases tables.rows[save.key]? <;> rfl
  unfold storedObject objectRow
  simp only [codec.decode_encode]
  change (if ((tables.generation + 1 : Nat) : Int) ≤ 0 then _ else _) = _
  rw [if_neg hpositive]
  simp only [ObjectTables.savedObject, newObject, StoredObject.stored, Int.toNat_natCast, hcreated]

theorem saveObject_ok {tables tables' : ObjectTables μ π} {save : Save} {now token : String}
    {object : StoredObject} {old : Option String}
    (h : tables.saveObject codec event save now token = .ok (tables', object, old)) :
    object = tables.savedObject codec save now token ∧
    tables'.rows = tables.rows.insert save.key
      (objectRow codec object save.blobName tables.rows[save.key]?) ∧
    tables'.generation = tables.generation + 1 ∧
    old = tables.rows[save.key]?.map ObjectRow.blobName := by
  unfold ObjectTables.saveObject at h
  dsimp only at h
  split at h
  · cases h
  · split at h
    · cases h
    · obtain ⟨rfl, rfl, rfl⟩ := Prod.mk.inj (Except.ok.inj h) |>.imp_right Prod.mk.inj
      exact ⟨rfl, rfl, rfl, rfl⟩

theorem deleteObject_some {tables tables' : ObjectTables μ π} {key : ObjectKey} {blob : String}
    (h : tables.deleteObject codec event key = .ok (some (tables', blob))) :
    ∃ row, tables.rows[key]? = some row ∧ row.blobName = blob ∧
      tables'.rows = tables.rows.erase key ∧ tables'.generation = tables.generation := by
  unfold ObjectTables.deleteObject at h
  split at h
  · cases h
  · rename_i row hr
    split at h
    · cases h
    · split at h
      · cases h
      · obtain ⟨rfl, rfl⟩ := Prod.mk.inj (Option.some.inj (Except.ok.inj h))
        exact ⟨row, hr, rfl, rfl, rfl⟩

theorem mem_referenced {tables : ObjectTables μ π} {name : String} :
    name ∈ tables.referenced ↔
      ∃ (key : ObjectKey) (row : ObjectRow μ), tables.rows[key]? = some row ∧ row.blobName = name := by
  unfold ObjectTables.referenced
  rw [List.mem_map]
  constructor
  · rintro ⟨⟨key, row⟩, hm, hname⟩
    exact ⟨key, row, ExtTreeMap.mem_toList_iff_getElem?_eq_some.mp hm, hname⟩
  · rintro ⟨key, row, hr, hname⟩
    exact ⟨(key, row), ExtTreeMap.mem_toList_iff_getElem?_eq_some.mpr hr, hname⟩

theorem removeBlob_other {disk : Disk} {name n : String} (hn : n ≠ name) :
    (disk.removeBlob name).blobs[n]? = disk.blobs[n]? := by
  unfold Disk.removeBlob
  split
  · simp [ExtTreeMap.getElem?_erase, Ne.symm hn]
  · rfl

theorem removeBlob_temporary {disk : Disk} {name : String} :
    (disk.removeBlob name).temporary = disk.temporary := by
  unfold Disk.removeBlob
  split <;> rfl

namespace Request

/-- The save of a request, at whatever stage. -/
def save? : Request → Option Save
  | .saving save _ => some save
  | _ => none

/-- The save whose transaction is still to run. -/
def coming : Request → Option Save
  | .saving save .opening => some save
  | .saving save .opened => some save
  | .saving save .written => some save
  | .saving save .renamed => some save
  | .saving save (.stored _) => some save
  | .saving save (.locked _) => some save
  | .saving save (.submitted _) => some save
  | _ => none

/-- The save whose temporary file is complete. -/
def flushed : Request → Option Save
  | .saving save .written => some save
  | _ => none

/-- The save whose blob is there while its transaction is still to run. -/
def placed : Request → Option Save
  | .saving save .renamed => some save
  | .saving save (.stored _) => some save
  | .saving save (.locked _) => some save
  | .saving save (.submitted _) => some save
  | _ => none

/-- The blob that the request is about to remove. -/
def going : Request → Option String
  | .saving _ (.committed _ old) => old
  | .saving save (.refused _) => some save.blobName
  | .removing _ (.committed blob) => some blob
  | _ => none

/-- The object whose blob a media GET is about to read. -/
def wanted : Request → Option StoredObject
  | .reading _ _ (.found object) => some object
  | .reading _ _ (.inspected object _) => some object
  | _ => none

theorem coming_save {request : Request} {save : Save} (h : request.coming = some save) :
    request.save? = some save := by
  unfold coming at h
  split at h <;> first | exact h | cases h

theorem placed_coming {request : Request} {save : Save} (h : request.placed = some save) :
    request.coming = some save := by
  unfold placed at h
  split at h <;> first | exact h | cases h

theorem flushed_coming {request : Request} {save : Save} (h : request.flushed = some save) :
    request.coming = some save := by
  unfold flushed at h
  split at h <;> first | exact h | cases h

end Request

namespace Lifecycle

variable {state : Lifecycle μ π}

/-- The row was written by the commit, the last one of its key, and its blob has the bytes of
this commit. -/
structure Holds (codec : StorageCodec μ) (state : Lifecycle μ π) (key : ObjectKey)
    (row : ObjectRow μ) (commit : Commit) : Prop where
  logged : commit ∈ state.log
  object : storedObject codec key row = .ok commit.object
  bytes : state.disk.blobs[row.blobName]? = some commit.bytes
  last : ∀ other ∈ state.log, other.object.key = key →
    other.object.generation ≤ commit.object.generation

/-- Each row has its commit and its blob. -/
structure Stored (codec : StorageCodec μ) (state : Lifecycle μ π) : Prop where
  sized : ∀ commit ∈ state.log, commit.object.size = commit.bytes.length ∧
    commit.object.crc32c = codec.crc32c commit.bytes
  named : ∀ commit ∈ state.log, ∃ name, commit.object.blobName = some name ∧
    canonicalUuid name = true ∧ name ∈ state.drawn
  growing : state.log.Pairwise fun earlier later =>
    earlier.object.generation < later.object.generation
  counted : ∀ commit ∈ state.log, commit.object.generation ≤ state.tables.generation
  distinct : (state.log.map fun commit => commit.object.blobName).Nodup
  rows : ∀ key row, state.tables.rows[key]? = some row → ∃ commit, Holds codec state key row commit

/-- No commit of the same key that a GET may have missed is later. -/
def Recent (log : List Commit) (since : Nat) (commit : Commit) : Prop :=
  ∀ earlier ∈ log.take since, earlier.object.key = commit.object.key →
    earlier.object.generation ≤ commit.object.generation

/-- What a media GET answers: that there is no such object, or one commit that is recent. -/
def Answers (state : Lifecycle μ π) (key : ObjectKey) (since : Nat) (reply : Reply) : Prop :=
  reply = .notFound ∨ ∃ commit ∈ state.log, commit.object.key = key ∧
    Recent state.log since commit ∧
      reply = mediaResponse { commit.object with bytes := some commit.bytes }

/-- The object a media GET has found is that of a recent commit, whose blob is there. -/
def Sees (state : Lifecycle μ π) (key : ObjectKey) (since : Nat) (object : StoredObject)
    (name : String) : Prop :=
  ∃ commit ∈ state.log, commit.object = object ∧ object.key = key ∧
    Recent state.log since commit ∧ object.blobName = some name ∧
      state.disk.blobs[name]? = some commit.bytes

/-- How far a media GET has come rightly. -/
def Reads (state : Lifecycle μ π) (key : ObjectKey) (since : Nat) : ReadStage → Prop
  | .found object => ∃ name, canonicalUuid name = true ∧ state.Sees key since object name
  | .inspected object name => state.Sees key since object name
  | .answered reply => state.Answers key since reply
  | _ => True

/-- What holds of each task: a save to come has a blob of its own, which is there when it is to
be; what is to be removed is in no row; a GET has the lock and the right object. -/
structure TaskOk (state : Lifecycle μ π) (task : Task) : Prop where
  drawn : ∀ save, task.request.save? = some save → save.blobName ∈ state.drawn ∧
    save.temporaryName ∈ state.drawn ∧ canonicalUuid save.blobName = true
  coming : ∀ save, task.request.coming = some save →
    ∀ commit ∈ state.log, commit.object.blobName ≠ some save.blobName
  flushed : ∀ save, task.request.flushed = some save →
    state.disk.temporary[save.temporaryName]? = some save.bytes
  placed : ∀ save, task.request.placed = some save →
    state.disk.blobs[save.blobName]? = some save.bytes
  going : ∀ name, task.request.going = some name → name ∈ state.drawn ∧
    ∀ (key : ObjectKey) (row : ObjectRow μ), state.tables.rows[key]? = some row →
      row.blobName ≠ name
  reads : ∀ key since stage, task.request = .reading key since stage →
    task.dropped = false ∧ since ≤ state.log.length ∧ state.Reads key since stage

/-- What holds between two tasks: their saves have names of their own, neither removes a blob of
the other, and only readers share the lock. -/
structure Apart (task other : Task) : Prop where
  names : ∀ save save', task.request.save? = some save → other.request.save? = some save' →
    save.blobName ≠ save'.blobName ∧ save.temporaryName ≠ save'.temporaryName
  coming : ∀ name save, task.request.going = some name → other.request.coming = some save →
    save.blobName ≠ name
  wanted : ∀ name object, task.request.going = some name → other.request.wanted = some object →
    object.blobName ≠ some name
  lock : task.writing = true → other.writing = false ∧ other.reading = false

/-- The invariant of the two stores and the requests. -/
structure Intact (codec : StorageCodec μ) (state : Lifecycle μ π) : Prop where
  stored : Stored codec state
  tasks : ∀ (id : Nat) (task : Task), state.tasks[id]? = some task → state.TaskOk task
  apart : ∀ (id id' : Nat) (task other : Task), id ≠ id' → state.tasks[id]? = some task →
    state.tasks[id']? = some other → Apart task other
  stopped : state.running = false → ∀ id : Nat, state.tasks[id]? = none

/-- The task has no save, removal or read that the other one had not. -/
structure Within (task old : Task) : Prop where
  save : ∀ save, task.request.save? = some save → old.request.save? = some save
  coming : ∀ save, task.request.coming = some save → old.request.coming = some save
  going : ∀ name, task.request.going = some name → old.request.going = some name
  wanted : ∀ object, task.request.wanted = some object → old.request.wanted = some object

variable {task old other : Task}

theorem Apart.within (h : Apart old other) (hw : Within task old)
    (hlock : task.writing = true → other.writing = false ∧ other.reading = false) :
    Apart task other :=
  ⟨fun save save' hs => h.names save save' (hw.save save hs),
    fun name save hg => h.coming name save (hw.going name hg),
    fun name object hg => h.wanted name object (hw.going name hg), hlock⟩

theorem Apart.of_within (h : Apart other old) (hw : Within task old)
    (hlock : other.writing = true → task.writing = false ∧ task.reading = false) :
    Apart other task :=
  ⟨fun save save' hs hs' => h.names save save' hs (hw.save save' hs'),
    fun name save hg hc => h.coming name save hg (hw.coming save hc),
    fun name object hg hwanted => h.wanted name object hg (hw.wanted object hwanted), hlock⟩

theorem Recent.mono {log log' : List Commit} {since : Nat} {commit : Commit}
    (h : Recent log since commit) (hl : log <+: log') (hs : since ≤ log.length) :
    Recent log' since commit := by
  obtain ⟨more, rfl⟩ := hl
  intro earlier hm
  rw [List.take_append_of_le_length hs] at hm
  exact h earlier hm

variable {state' : Lifecycle μ π}

theorem Sees.mono {key : ObjectKey} {since : Nat} {object : StoredObject} {name : String}
    (h : state.Sees key since object name) (hl : state.log <+: state'.log)
    (hs : since ≤ state.log.length)
    (hb : state'.disk.blobs[name]? = state.disk.blobs[name]?) :
    state'.Sees key since object name := by
  obtain ⟨commit, hm, ho, hk, hrecent, hn, hbytes⟩ := h
  exact ⟨commit, hl.subset hm, ho, hk, hrecent.mono hl hs, hn, hb.trans hbytes⟩

/-- A task stays right when the stores change elsewhere. -/
theorem TaskOk.mono (h : state.TaskOk task) (hdrawn : ∀ name ∈ state.drawn, name ∈ state'.drawn)
    (hlog : state.log <+: state'.log)
    (hcoming : ∀ save, task.request.coming = some save → ∀ commit ∈ state'.log,
      commit ∈ state.log ∨ commit.object.blobName ≠ some save.blobName)
    (hflushed : ∀ save, task.request.flushed = some save →
      state'.disk.temporary[save.temporaryName]? = state.disk.temporary[save.temporaryName]?)
    (hplaced : ∀ save, task.request.placed = some save →
      state'.disk.blobs[save.blobName]? = state.disk.blobs[save.blobName]?)
    (hwanted : ∀ object name, task.request.wanted = some object → object.blobName = some name →
      state'.disk.blobs[name]? = state.disk.blobs[name]?)
    (hgoing : ∀ name, task.request.going = some name →
      ∀ (key : ObjectKey) (row : ObjectRow μ), state'.tables.rows[key]? = some row →
        state.tables.rows[key]? = some row ∨ row.blobName ≠ name) : state'.TaskOk task := by
  refine ⟨fun save hs => ?_, fun save hc commit hm => ?_, fun save hf => ?_, fun save hp => ?_,
    fun name hg => ?_, fun key since stage hr => ?_⟩
  · obtain ⟨hblob, htemporary, hcanonical⟩ := h.drawn save hs
    exact ⟨hdrawn _ hblob, hdrawn _ htemporary, hcanonical⟩
  · rcases hcoming save hc commit hm with hold | hne
    · exact h.coming save hc commit hold
    · exact hne
  · exact (hflushed save hf).trans (h.flushed save hf)
  · exact (hplaced save hp).trans (h.placed save hp)
  · obtain ⟨hd, hrows⟩ := h.going name hg
    refine ⟨hdrawn _ hd, fun key row hr => ?_⟩
    rcases hgoing name hg key row hr with hold | hne
    · exact hrows key row hold
    · exact hne
  · obtain ⟨hkept, hsince, hreads⟩ := h.reads key since stage hr
    refine ⟨hkept, Nat.le_trans hsince hlog.length_le, ?_⟩
    cases stage with
    | waiting => trivial
    | locked => trivial
    | found object =>
      obtain ⟨name, hcanonical, hsees⟩ := hreads
      have hname : object.blobName = some name := hsees.choose_spec.2.2.2.2.1
      exact ⟨name, hcanonical, hsees.mono hlog hsince
        (hwanted object name (by rw [hr]; rfl) hname)⟩
    | inspected object name =>
      have hname : object.blobName = some name := hreads.choose_spec.2.2.2.2.1
      exact Sees.mono hreads hlog hsince (hwanted object name (by rw [hr]; rfl) hname)
    | answered reply =>
      rcases hreads with hnone | ⟨commit, hm, hk, hrecent, hreply⟩
      · exact .inl hnone
      · exact .inr ⟨commit, hlog.subset hm, hk, hrecent.mono hlog hsince, hreply⟩

/-- One task changes, or ends; the others stay right. -/
theorem Intact.replace (h : Intact codec state) (id : Nat) (new : Option Task)
    (htasks : ∀ j : Nat, state'.tasks[j]? = if id = j then new else state.tasks[j]?)
    (hrunning : state'.running = true) (hstored : Stored codec state')
    (hothers : ∀ (j : Nat) (other : Task), j ≠ id → state.tasks[j]? = some other →
      state'.TaskOk other)
    (hnew : ∀ task, new = some task → state'.TaskOk task ∧
      ∀ (j : Nat) (other : Task), j ≠ id → state.tasks[j]? = some other →
        Apart task other ∧ Apart other task) : Intact codec state' := by
  refine ⟨hstored, fun j task hj => ?_, fun j j' task other hne hj hj' => ?_, fun hs => ?_⟩
  · rw [htasks] at hj
    split at hj
    · exact (hnew task hj).1
    · rename_i hid
      exact hothers j task (Ne.symm hid) hj
  · rw [htasks] at hj hj'
    split at hj
    · rename_i hid
      subst hid
      rw [if_neg hne] at hj'
      exact ((hnew task hj).2 j' other (Ne.symm hne) hj').1
    · rename_i hid
      split at hj'
      · rename_i hid'
        subst hid'
        exact ((hnew other hj').2 j task (Ne.symm hid) hj).2
      · exact h.apart j j' task other hne hj hj'
  · rw [hrunning] at hs
    cases hs

/-- The stores and the record are the same. -/
structure SameStores (state state' : Lifecycle μ π) : Prop where
  disk : state'.disk = state.disk
  rows : state'.tables.rows = state.tables.rows
  generation : state'.tables.generation = state.tables.generation
  log : state'.log = state.log
  drawn : state'.drawn = state.drawn

theorem TaskOk.same (h : state.TaskOk task) (hs : state.SameStores state') :
    state'.TaskOk task := by
  refine h.mono (fun name hm => hs.drawn ▸ hm) (hs.log ▸ List.prefix_refl _)
    (fun save _ commit hm => .inl (hs.log ▸ hm)) (fun save _ => ?_) (fun save _ => ?_)
    (fun object name _ _ => ?_) fun name _ key row hr => .inl (hs.rows ▸ hr)
  · rw [hs.disk]
  · rw [hs.disk]
  · rw [hs.disk]

theorem Stored.same (h : Stored codec state) (hs : state.SameStores state') :
    Stored codec state' := by
  refine ⟨?_, ?_, ?_, ?_, ?_, fun key row hr => ?_⟩
  · exact hs.log ▸ h.sized
  · rw [hs.log, hs.drawn]
    exact h.named
  · exact hs.log ▸ h.growing
  · rw [hs.log, hs.generation]
    exact h.counted
  · exact hs.log ▸ h.distinct
  · obtain ⟨commit, hc⟩ := h.rows key row (hs.rows ▸ hr)
    refine ⟨commit, hs.log ▸ hc.logged, hc.object, ?_, hs.log ▸ hc.last⟩
    rw [hs.disk]
    exact hc.bytes

/-- The new task and the others agree on who holds the lock. -/
def LockOk (state : Lifecycle μ π) (id : Nat) (task : Task) : Prop :=
  ∀ (j : Nat) (other : Task), j ≠ id → state.tasks[j]? = some other →
    (task.writing = true → other.writing = false ∧ other.reading = false) ∧
    (other.writing = true → task.writing = false ∧ task.reading = false)

theorem LockOk.calm (hwriting : task.writing = false) (hreading : task.reading = false)
    {id : Nat} : state.LockOk id task :=
  fun _ _ _ _ => ⟨fun h => by simp [hwriting] at h, fun _ => ⟨hwriting, hreading⟩⟩

theorem Intact.lock_kept (h : Intact codec state) {id : Nat} (hid : state.tasks[id]? = some old)
    (task : Task) (hwriting : task.writing = old.writing) (hreading : task.reading = old.reading) :
    state.LockOk id task := by
  intro j other hne hj
  rw [hwriting, hreading]
  exact ⟨(h.apart id j old other (Ne.symm hne) hid hj).lock,
    (h.apart j id other old hne hj hid).lock⟩

theorem lock_taken (hfree : state.free = true) {id : Nat} : state.LockOk id task := by
  intro j other _ hj
  have hother := List.all_eq_true.mp hfree (j, other)
    (ExtTreeMap.mem_toList_iff_getElem?_eq_some.mpr hj)
  simp only [Bool.and_eq_true, Bool.not_eq_true'] at hother
  exact ⟨fun _ => hother, fun hw => by simp [hother.1] at hw⟩

theorem lock_shared (hshare : state.shareable = true) (hwriting : task.writing = false)
    {id : Nat} : state.LockOk id task := by
  intro j other _ hj
  have hother := List.all_eq_true.mp hshare (j, other)
    (ExtTreeMap.mem_toList_iff_getElem?_eq_some.mpr hj)
  simp only [Bool.not_eq_true'] at hother
  exact ⟨fun hw => by simp [hwriting] at hw, fun hw => by simp [hother] at hw⟩

theorem Intact.running (h : Intact codec state) {id : Nat} (hid : state.tasks[id]? = some task) :
    state.running = true := by
  cases hr : state.running with
  | true => rfl
  | false =>
    rw [h.stopped hr id] at hid
    cases hid

theorem Intact.apart_within (h : Intact codec state) {id : Nat}
    (hid : state.tasks[id]? = some old) (hw : Within task old) (hlock : state.LockOk id task)
    {j : Nat} (hne : j ≠ id) (hj : state.tasks[j]? = some other) :
    Apart task other ∧ Apart other task :=
  ⟨(h.apart id j old other (Ne.symm hne) hid hj).within hw (hlock j other hne hj).1,
    (h.apart j id other old hne hj hid).of_within hw (hlock j other hne hj).2⟩

/-- The stores have changed, and one task goes on, which is to stay as it is when dropped. -/
theorem Intact.setTask (h : Intact codec state) {id : Nat} (hid : state.tasks[id]? = some old)
    {request : Request} {dropped : Bool} (htasks : state'.tasks = state.tasks)
    (hrunning : state'.running = state.running) (hstored : Stored codec state')
    (hothers : ∀ (j : Nat) (other : Task), j ≠ id → state.tasks[j]? = some other →
      state'.TaskOk other)
    (htask : state'.TaskOk ⟨request, dropped⟩)
    (hapart : ∀ (j : Nat) (other : Task), j ≠ id → state.tasks[j]? = some other →
      Apart ⟨request, dropped⟩ other ∧ Apart other ⟨request, dropped⟩) :
    Intact codec (state'.setTask id request dropped) := by
  have hsame : state'.SameStores (state'.setTask id request dropped) := ⟨rfl, rfl, rfl, rfl, rfl⟩
  refine h.replace id (some ⟨request, dropped⟩) (fun j => ?_) ?_
    (hstored.same hsame) (fun j other hne hj => (hothers j other hne hj).same hsame)
    fun task ht => ?_
  · change (state'.tasks.insert id _)[j]? = _
    rw [htasks, ExtTreeMap.getElem?_insert]
    simp only [LawfulEqOrd.compare_eq_iff_eq]
  · exact hrunning.trans (h.running hid)
  · obtain rfl := Option.some.inj ht
    exact ⟨htask.same hsame, hapart⟩

/-- As above, for a task that ends when dropped. -/
theorem Intact.proceed (h : Intact codec state) {id : Nat} (hid : state.tasks[id]? = some old)
    {request : Request} (htasks : state'.tasks = state.tasks)
    (hrunning : state'.running = state.running) (hstored : Stored codec state')
    (hothers : ∀ (j : Nat) (other : Task), j ≠ id → state.tasks[j]? = some other →
      state'.TaskOk other)
    (htask : old.dropped = false → state'.TaskOk ⟨request, false⟩)
    (hapart : old.dropped = false →
      ∀ (j : Nat) (other : Task), j ≠ id → state.tasks[j]? = some other →
        Apart ⟨request, false⟩ other ∧ Apart other ⟨request, false⟩) :
    Intact codec (state'.proceed id old request) := by
  unfold Lifecycle.proceed
  split
  · have hsame : state'.SameStores (state'.endTask id) := ⟨rfl, rfl, rfl, rfl, rfl⟩
    refine h.replace id none (fun j => ?_) (hrunning.trans (h.running hid))
      (hstored.same hsame) (fun j other hne hj => (hothers j other hne hj).same hsame)
      fun task ht => by cases ht
    change (state'.tasks.erase id)[j]? = _
    rw [htasks, ExtTreeMap.getElem?_erase]
    simp only [LawfulEqOrd.compare_eq_iff_eq]
  · rename_i hd
    simp only [Bool.not_eq_true] at hd
    exact h.setTask hid htasks hrunning hstored hothers (htask hd) (hapart hd)

/-- A step that leaves the stores alone. -/
theorem Intact.quiet (h : Intact codec state) {id : Nat} (hid : state.tasks[id]? = some old)
    {request : Request} (hw : Within ⟨request, false⟩ old)
    (htask : old.dropped = false → state.TaskOk ⟨request, false⟩)
    (hlock : old.dropped = false → state.LockOk id ⟨request, false⟩) :
    Intact codec (state.proceed id old request) :=
  h.proceed hid rfl rfl h.stored (fun j other _ hj => h.tasks j other hj) htask
    fun hd _ _ hne hj => h.apart_within hid hw (hlock hd) hne hj

end Lifecycle

end FirebaseEmu.Storage
