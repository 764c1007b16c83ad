import FirebaseEmu.Storage.Blobs

namespace FirebaseEmu.Storage
open Lib Std

variable {μ π : Type} {codec : StorageCodec μ} {event : String → Json → π}

namespace Lifecycle

variable {state state' : Lifecycle μ π} {task old other : Task}

/-- A GET without a blob in view. -/
theorem within_reading {key : ObjectKey} {since : Nat} {stage : ReadStage}
    (hnone : Request.wanted (.reading key since stage) = none) :
    Within ⟨.reading key since stage, false⟩ old := by
  refine ⟨fun save hs => (by cases hs), fun save hc => (by cases hc), fun name hg => (by cases hg),
    fun object hw => ?_⟩
  change Request.wanted (.reading key since stage) = some object at hw
  rw [hnone] at hw
  cases hw

theorem taskOk_reading {key : ObjectKey} {since : Nat} {stage : ReadStage}
    (hsince : since ≤ state.log.length) (hreads : state.Reads key since stage) :
    state.TaskOk ⟨.reading key since stage, false⟩ := by
  refine ⟨fun save hs => (by cases hs), fun save hc => (by cases hc), fun save hf => (by cases hf),
    fun save hp => (by cases hp), fun name hg => (by cases hg), fun key' since' stage' hr => ?_⟩
  obtain ⟨rfl, rfl, rfl⟩ := Request.reading.inj hr
  exact ⟨rfl, hsince, hreads⟩

/-- The row a GET selects is that of the last commit of its key. -/
theorem Stored.sees (h : Stored codec state) {key : ObjectKey} {object : StoredObject}
    (hobject : state.tables.persistentObject codec key = .ok (some object)) (since : Nat) :
    ∃ (row : ObjectRow μ) (name : String), state.tables.rows[key]? = some row ∧
      row.blobName = name ∧ canonicalUuid name = true ∧ state.Sees key since object name := by
  unfold ObjectTables.persistentObject at hobject
  split at hobject
  · cases hobject
  · rename_i row hr
    obtain ⟨commit, hc⟩ := h.rows key row hr
    rw [hc.object] at hobject
    obtain rfl : commit.object = object := Option.some.inj (Except.ok.inj hobject)
    obtain ⟨hkey, hname⟩ := storedObject_ok hc.object
    obtain ⟨name, hn, hcanonical, -⟩ := h.named commit hc.logged
    obtain rfl : row.blobName = name := Option.some.inj (hname.symm.trans hn)
    refine ⟨row, row.blobName, hr, rfl, hcanonical, commit, hc.logged, rfl, hkey, ?_, hname, hc.bytes⟩
    intro earlier hm he
    exact hc.last earlier (List.mem_of_mem_take hm) (he.trans hkey)

theorem Intact.answer (h : Intact codec state) {id : Nat} (hid : state.tasks[id]? = some old)
    {key : ObjectKey} {since : Nat} {reply : Reply} (hsince : since ≤ state.log.length)
    (hanswers : state.Answers key since reply) :
    Intact codec (state.proceed id old (.reading key since (.answered reply))) := by
  refine h.quiet hid (within_reading rfl) (fun _ => taskOk_reading hsince hanswers) fun _ => ?_
  exact LockOk.calm rfl rfl

theorem Intact.advanceRead (h : Intact codec state) {id : Nat} {key : ObjectKey} {since : Nat}
    {stage : ReadStage} (hid : state.tasks[id]? = some old)
    (hrequest : old.request = .reading key since stage) :
    Intact codec (state.advanceRead codec id old key since stage) := by
  obtain ⟨hkept, hsince, hreads⟩ := (h.tasks id old hid).reads key since stage hrequest
  cases stage with
  | waiting =>
    change Intact codec (if state.shareable then _ else _)
    split
    · rename_i hshare
      refine h.quiet hid (within_reading rfl) (fun _ => taskOk_reading hsince trivial) fun _ => ?_
      exact lock_shared hshare rfl
    · exact h
  | locked =>
    unfold Lifecycle.advanceRead
    dsimp only
    have hreading : old.reading = true := by rw [Task.reading, hrequest, hkept]; rfl
    have hwriting : old.writing = false := by rw [Task.writing, hrequest, hkept]; rfl
    split
    · rename_i object hobject
      obtain ⟨row, name, hr, hname, hcanonical, hsees⟩ := h.stored.sees hobject since
      refine h.proceed hid rfl rfl h.stored (fun j other _ hj => h.tasks j other hj)
        (fun _ => taskOk_reading hsince ⟨name, hcanonical, hsees⟩) fun _ j other hne hj => ?_
      have hlock := h.lock_kept hid ⟨.reading key since (.found object), false⟩
        hwriting.symm hreading.symm j other hne hj
      refine ⟨⟨fun _ _ hs => (by cases hs), fun _ _ hg => (by cases hg), fun _ _ hg => (by cases hg),
        hlock.1⟩, ⟨fun _ _ _ hs => (by cases hs), fun _ _ _ hc => (by cases hc),
        fun going object' hg hw => ?_, hlock.2⟩⟩
      obtain rfl := Option.some.inj hw
      rw [hsees.choose_spec.2.2.2.2.1, ← hname]
      intro he
      exact ((h.tasks j other hj).going going hg).2 key row hr (Option.some.inj he)
    · exact h.answer hid hsince (.inl rfl)
    · rename_i error herror
      unfold ObjectTables.persistentObject at herror
      split at herror
      · cases herror
      · rename_i row hr
        obtain ⟨commit, hc⟩ := h.stored.rows key row hr
        rw [hc.object] at herror
        cases herror
  | found object =>
    obtain ⟨name, hcanonical, hsees⟩ := hreads
    have hname : object.blobName = some name := hsees.choose_spec.2.2.2.2.1
    have hthere : state.disk.blobs.contains name = true := by
      rw [ExtTreeMap.contains_eq_isSome_getElem?, hsees.choose_spec.2.2.2.2.2]
      rfl
    have hinspect : state.disk.inspectBlob object = .ok name := by
      unfold Disk.inspectBlob
      rw [hname]
      simp only [hcanonical, hthere, Bool.not_true, Bool.false_eq_true, if_false, if_true]
    have hreading : old.reading = true := by rw [Task.reading, hrequest, hkept]; rfl
    have hwriting : old.writing = false := by rw [Task.writing, hrequest, hkept]; rfl
    unfold Lifecycle.advanceRead
    dsimp only
    rw [hinspect]
    refine h.quiet hid ⟨fun _ hs => (by cases hs), fun _ hc => (by cases hc), fun _ hg => (by cases hg),
      fun object' hw => ?_⟩ (fun _ => taskOk_reading hsince hsees) fun _ => ?_
    · rw [hrequest]
      exact hw
    · exact h.lock_kept hid _ hwriting.symm hreading.symm
  | inspected object name =>
    obtain ⟨commit, hm, hobject, hkey, hrecent, hname, hbytes⟩ := hreads
    obtain ⟨hsize, hcrc⟩ := h.stored.sized commit hm
    have hread : state.disk.readBlob codec object name = .ok commit.bytes := by
      unfold Disk.readBlob
      rw [hbytes]
      simp [← hobject, hsize, hcrc]
    unfold Lifecycle.advanceRead
    dsimp only
    rw [hread]
    refine h.answer hid hsince (.inr ⟨commit, hm, hobject ▸ hkey, hrecent, ?_⟩)
    rw [hobject]
  | answered reply => exact h

/-- A request with no save to come, nothing to remove, and no read. -/
structure Idle (request : Request) : Prop where
  coming : request.coming = none
  going : request.going = none
  writes : ∀ key since stage, request ≠ .reading key since stage

theorem Idle.wanted {request : Request} (h : Idle request) : request.wanted = none := by
  unfold Request.wanted
  split
  · exact absurd rfl (h.writes _ _ _)
  · exact absurd rfl (h.writes _ _ _)
  · rfl

theorem Idle.reading {request : Request} (h : Idle request) {dropped : Bool} :
    (⟨request, dropped⟩ : Task).reading = false := by
  cases request with
  | saving save stage => simp [Task.reading]
  | removing key stage => simp [Task.reading]
  | reading key since stage => exact absurd rfl (h.writes key since stage)

theorem Idle.within {request : Request} (h : Idle request) {dropped : Bool}
    (hsave : ∀ save, request.save? = some save → old.request.save? = some save) :
    Within ⟨request, dropped⟩ old := by
  refine ⟨hsave, fun save hc => ?_, fun name hg => ?_, fun object hw => ?_⟩
  · rw [h.coming] at hc
    cases hc
  · rw [h.going] at hg
    cases hg
  · rw [h.wanted] at hw
    cases hw

theorem Idle.taskOk {request : Request} (h : Idle request) {dropped : Bool}
    (hsave : ∀ save, request.save? = some save → old.request.save? = some save)
    (hold : state.TaskOk old) : state.TaskOk ⟨request, dropped⟩ := by
  refine ⟨fun save hs => hold.drawn save (hsave save hs), fun save hc => ?_, fun save hf => ?_,
    fun save hp => ?_, fun name hg => ?_, fun key since stage hr => absurd hr (h.writes _ _ _)⟩
  · rw [h.coming] at hc
    cases hc
  · have hc := Request.flushed_coming hf
    rw [h.coming] at hc
    cases hc
  · have hc := Request.placed_coming hp
    rw [h.coming] at hc
    cases hc
  · rw [h.going] at hg
    cases hg

theorem idle_removing {key : ObjectKey} {stage : RemoveStage}
    (hgoing : Request.going (.removing key stage) = none) : Idle (.removing key stage) :=
  ⟨rfl, hgoing, fun _ _ _ he => by cases he⟩

theorem idle_saving {save : Save} {stage : SaveStage}
    (hcoming : Request.coming (.saving save stage) = none)
    (hgoing : Request.going (.saving save stage) = none) : Idle (.saving save stage) :=
  ⟨hcoming, hgoing, fun _ _ _ he => by cases he⟩

/-- Two rows do not share a blob. -/
theorem Stored.row_unique (h : Stored codec state) {key key' : ObjectKey} {row row' : ObjectRow μ}
    (hr : state.tables.rows[key]? = some row) (hr' : state.tables.rows[key']? = some row')
    (hblob : row.blobName = row'.blobName) : key = key' := by
  obtain ⟨commit, hc⟩ := h.rows key row hr
  obtain ⟨commit', hc'⟩ := h.rows key' row' hr'
  obtain ⟨hkey, hname⟩ := storedObject_ok hc.object
  obtain ⟨hkey', hname'⟩ := storedObject_ok hc'.object
  have hnames : commit.object.blobName = commit'.object.blobName := by
    rw [hname, hname', hblob]
  obtain rfl := List.inj_on_of_nodup_map h.distinct hc.logged hc'.logged hnames
  exact hkey.symm.trans hkey'

theorem TaskOk.wanted_logged (h : state.TaskOk task) {object : StoredObject}
    (hw : task.request.wanted = some object) :
    ∃ commit ∈ state.log, commit.object = object := by
  have hreads := h.reads
  unfold Request.wanted at hw
  split at hw
  · rename_i key since found hr
    obtain rfl := Option.some.inj hw
    obtain ⟨-, -, name, -, commit, hm, ho, -⟩ := hreads key since _ hr
    exact ⟨commit, hm, ho⟩
  · rename_i key since found name hr
    obtain rfl := Option.some.inj hw
    obtain ⟨-, -, commit, hm, ho, -⟩ := hreads key since _ hr
    exact ⟨commit, hm, ho⟩
  · cases hw

/-- While one task writes, no GET has a blob in view. -/
theorem Intact.none_wanted (h : Intact codec state) {id j : Nat} (hid : state.tasks[id]? = some old)
    (hwriting : old.writing = true) (hne : j ≠ id) (hj : state.tasks[j]? = some other) :
    other.request.wanted = none := by
  have hfree := ((h.apart id j old other (Ne.symm hne) hid hj).lock hwriting).2
  have hreads := (h.tasks j other hj).reads
  unfold Request.wanted
  split
  · rename_i key since object hr
    rw [Task.reading, hr, (hreads key since _ hr).1] at hfree
    cases hfree
  · rename_i key since object name hr
    rw [Task.reading, hr, (hreads key since _ hr).1] at hfree
    cases hfree
  · rfl

/-- A blob that a task was to remove is gone; all others are as they were. -/
theorem Intact.unlinked (h : Intact codec state) {id : Nat} (hid : state.tasks[id]? = some old)
    (name : String) (hgoing : old.request.going = some name) {request : Request}
    (hidle : Idle request)
    (hsave : ∀ save, request.save? = some save → old.request.save? = some save)
    (hcalm : (⟨request, false⟩ : Task).writing = false)
    (hblobs : ∀ n : String, n ≠ name → state'.disk.blobs[n]? = state.disk.blobs[n]?)
    (htemporary : state'.disk.temporary = state.disk.temporary)
    (htables : state'.tables = state.tables) (hlog : state'.log = state.log)
    (hdrawn : state'.drawn = state.drawn) (htasks : state'.tasks = state.tasks)
    (hrunning : state'.running = state.running) :
    Intact codec (state'.proceed id old request) := by
  have hunused := ((h.tasks id old hid).going name hgoing).2
  have hkept : ∀ (j : Nat) (other : Task), j ≠ id → state.tasks[j]? = some other →
      state'.TaskOk other := by
    intro j other hne hj
    have hapart := h.apart id j old other (Ne.symm hne) hid hj
    refine (h.tasks j other hj).mono (fun n hm => hdrawn ▸ hm) (hlog ▸ List.prefix_refl _)
      (fun save _ commit hm => .inl (hlog ▸ hm)) (fun save _ => by rw [htemporary])
      (fun save hp => ?_) (fun object n hw hn => ?_) fun n _ key row hr => .inl (htables ▸ hr)
    · exact hblobs _ (hapart.coming name save hgoing (Request.placed_coming hp))
    · refine hblobs n fun he => hapart.wanted name object hgoing hw ?_
      rw [hn, he]
  refine h.proceed hid htasks hrunning ?_ hkept (fun _ => ?_) fun _ j other hne hj => ?_
  · refine ⟨hlog ▸ h.stored.sized, ?_, hlog ▸ h.stored.growing, ?_, hlog ▸ h.stored.distinct,
      fun key row hr => ?_⟩
    · rw [hlog, hdrawn]
      exact h.stored.named
    · rw [hlog, htables]
      exact h.stored.counted
    · rw [htables] at hr
      obtain ⟨commit, hc⟩ := h.stored.rows key row hr
      refine ⟨commit, hlog ▸ hc.logged, hc.object, ?_, hlog ▸ hc.last⟩
      exact (hblobs _ (hunused key row hr)).trans hc.bytes
  · have hidle' : state.TaskOk ⟨request, false⟩ := hidle.taskOk hsave (h.tasks id old hid)
    refine hidle'.mono (fun n hm => hdrawn ▸ hm) (hlog ▸ List.prefix_refl _)
      (fun save _ commit hm => .inl (hlog ▸ hm)) (fun save _ => by rw [htemporary])
      (fun save hp => ?_) (fun object n hw _ => ?_) fun n _ key row hr => .inl (htables ▸ hr)
    · have hc := Request.placed_coming hp
      rw [hidle.coming] at hc
      cases hc
    · rw [hidle.wanted] at hw
      cases hw
  · exact h.apart_within hid (hidle.within hsave) (LockOk.calm hcalm hidle.reading) hne hj

/-- A step to a request that has nothing to do with the blobs. -/
theorem Intact.idle (h : Intact codec state) {id : Nat} (hid : state.tasks[id]? = some old)
    {request : Request} (hidle : Idle request)
    (hsave : ∀ save, request.save? = some save → old.request.save? = some save)
    (hlock : old.dropped = false → state.LockOk id ⟨request, false⟩) :
    Intact codec (state.proceed id old request) :=
  h.quiet hid (hidle.within hsave) (fun _ => hidle.taskOk hsave (h.tasks id old hid)) hlock

theorem Intact.deleted (h : Intact codec state) {id : Nat} (hid : state.tasks[id]? = some old)
    {key : ObjectKey} (hrequest : old.request = .removing key .submitted)
    {tables : ObjectTables μ π} {blob : String}
    (hdelete : state.tables.deleteObject codec event key = .ok (some (tables, blob))) :
    Intact codec (({ state with tables } : Lifecycle μ π).proceed id old
      (.removing key (.committed blob))) := by
  obtain ⟨row, hr, hblob, hrows, hgeneration⟩ := deleteObject_some hdelete
  obtain ⟨commit, hc⟩ := h.stored.rows key row hr
  obtain ⟨hkey, hname⟩ := storedObject_ok hc.object
  have hkept : ∀ (key' : ObjectKey) (row' : ObjectRow μ), tables.rows[key']? = some row' →
      key ≠ key' ∧ state.tables.rows[key']? = some row' := by
    intro key' row' hr'
    rw [hrows, ExtTreeMap.getElem?_erase] at hr'
    simp only [LawfulEqOrd.compare_eq_iff_eq] at hr'
    split at hr'
    · cases hr'
    · exact ⟨‹_›, hr'⟩
  have hdrawn : blob ∈ state.drawn := by
    obtain ⟨name, hn, -, hm⟩ := h.stored.named commit hc.logged
    rw [hname, hblob] at hn
    exact Option.some.inj hn ▸ hm
  have hstored : Stored codec ({ state with tables } : Lifecycle μ π) := by
    refine ⟨h.stored.sized, h.stored.named, h.stored.growing, ?_, h.stored.distinct,
      fun key' row' hr' => ?_⟩
    · change ∀ commit ∈ state.log, _ ≤ tables.generation
      rw [hgeneration]
      exact h.stored.counted
    · obtain ⟨commit', hc'⟩ := h.stored.rows key' row' (hkept key' row' hr').2
      exact ⟨commit', hc'.logged, hc'.object, hc'.bytes, hc'.last⟩
  have hothers : ∀ (j : Nat) (other : Task), j ≠ id → state.tasks[j]? = some other →
      ({ state with tables } : Lifecycle μ π).TaskOk other := by
    intro j other _ hj
    exact (h.tasks j other hj).mono (fun _ hm => hm) (List.prefix_refl _)
      (fun _ _ _ hm => .inl hm) (fun _ _ => rfl) (fun _ _ => rfl) (fun _ _ _ _ => rfl)
      fun _ _ key' row' hr' => .inl (hkept key' row' hr').2
  refine h.proceed hid rfl rfl hstored hothers (fun hd => ?_) fun hd j other hne hj => ?_
  · refine ⟨fun _ hs => (by cases hs), fun _ hs => (by cases hs), fun _ hs => (by cases hs),
      fun _ hs => (by cases hs), fun name hg => ?_, fun _ _ _ he => by cases he⟩
    obtain rfl := Option.some.inj hg
    refine ⟨hdrawn, fun key' row' hr' he => ?_⟩
    obtain ⟨hne, hold⟩ := hkept key' row' hr'
    exact hne (h.stored.row_unique hr hold (hblob.trans he.symm))
  · have hwriting : old.writing = true := by rw [Task.writing, hrequest, hd]; rfl
    have hreading : old.reading = false := by rw [Task.reading, hrequest, hd]; rfl
    have hlock := h.lock_kept hid ⟨.removing key (.committed blob), false⟩
        hwriting.symm hreading.symm j other hne hj
    refine ⟨⟨fun _ _ hs => (by cases hs), fun name save hg hcoming => ?_,
      fun name object _ hw => ?_, hlock.1⟩,
      ⟨fun _ _ _ hs => (by cases hs), fun _ _ _ hs => (by cases hs),
        fun _ _ _ hs => (by cases hs), hlock.2⟩⟩
    · obtain rfl := Option.some.inj hg
      intro he
      refine (h.tasks j other hj).coming save hcoming commit hc.logged ?_
      rw [hname, hblob, he]
    · rw [h.none_wanted hid hwriting hne hj] at hw
      cases hw

theorem Intact.advanceRemove (h : Intact codec state) {id : Nat} {key : ObjectKey}
    {stage : RemoveStage} (hid : state.tasks[id]? = some old)
    (hrequest : old.request = .removing key stage) (input : Input) :
    Intact codec (state.advanceRemove codec event id old key input stage) := by
  have hnone : ∀ stage : RemoveStage, ∀ save,
      Request.save? (.removing key stage) = some save → old.request.save? = some save :=
    fun _ _ hs => by cases hs
  cases stage with
  | waiting =>
    change Intact codec (if state.free then _ else _)
    split
    · rename_i hfree
      exact h.idle hid (idle_removing rfl) (hnone _) fun _ => lock_taken hfree
    · exact h
  | locked =>
    refine h.idle hid (idle_removing rfl) (hnone _) fun hd => h.lock_kept hid _ ?_ ?_
    · rw [Task.writing, Task.writing, hrequest, hd]
    · rw [Task.reading, Task.reading, hrequest, hd]
  | submitted =>
    unfold Lifecycle.advanceRemove
    dsimp only
    split
    · rename_i tables blob hdelete
      split at hdelete
      · exact h.deleted hid hrequest hdelete
      · cases hdelete
    · exact h.idle hid (idle_removing rfl) (hnone _) fun _ => LockOk.calm rfl rfl
    · exact h.idle hid (idle_removing rfl) (hnone _) fun _ => LockOk.calm rfl rfl
  | committed blob =>
    refine h.unlinked hid blob (by rw [hrequest]; rfl) (idle_removing rfl) (hnone _) rfl
      (fun n hn => ?_) ?_ rfl rfl rfl rfl rfl
    · exact removeBlob_other hn
    · exact removeBlob_temporary
  | answered reply => exact h

/-- The task of a save that still comes. -/
theorem taskOk_coming (h : state.TaskOk old) {save : Save} {stage : SaveStage} {dropped : Bool}
    (hold : old.request.coming = some save)
    (hgoing : Request.going (.saving save stage) = none)
    (hflushed : Request.flushed (.saving save stage) = some save →
      state.disk.temporary[save.temporaryName]? = some save.bytes)
    (hplaced : Request.placed (.saving save stage) = some save →
      state.disk.blobs[save.blobName]? = some save.bytes) :
    state.TaskOk ⟨.saving save stage, dropped⟩ := by
  have hself : ∀ save', Request.save? (.saving save stage) = some save' → save = save' :=
    fun save' hs => Option.some.inj hs
  refine ⟨fun save' hs => ?_, fun save' hc => ?_, fun save' hf => ?_, fun save' hp => ?_,
    fun name hg => ?_, fun _ _ _ he => by cases he⟩
  · obtain rfl := hself save' hs
    exact h.drawn save (Request.coming_save hold)
  · obtain rfl := hself save' (Request.coming_save hc)
    exact h.coming save hold
  · obtain rfl := hself save' (Request.coming_save (Request.flushed_coming hf))
    exact hflushed hf
  · obtain rfl := hself save' (Request.coming_save (Request.placed_coming hp))
    exact hplaced hp
  · rw [hgoing] at hg
    cases hg

theorem within_coming {save : Save} {stage : SaveStage} {dropped : Bool}
    (hold : old.request.coming = some save)
    (hgoing : Request.going (.saving save stage) = none) :
    Within ⟨.saving save stage, dropped⟩ old := by
  refine ⟨fun save' hs => ?_, fun save' hc => ?_, fun name hg => ?_, fun object hw => by cases hw⟩
  · obtain rfl : save = save' := Option.some.inj hs
    exact Request.coming_save hold
  · obtain rfl : save = save' := Option.some.inj (Request.coming_save hc)
    exact hold
  · change Request.going (.saving save stage) = some name at hg
    rw [hgoing] at hg
    cases hg

/-- A file operation of a save whose transaction is still to run: it changes the temporary file
of the save, and may put its blob in place. -/
theorem Intact.filed (h : Intact codec state) {id : Nat} (hid : state.tasks[id]? = some old)
    {save : Save} (stage : SaveStage) (hold : old.request.coming = some save)
    (hgoing : Request.going (.saving save stage) = none)
    (hcalm : ∀ dropped, (⟨.saving save stage, dropped⟩ : Task).writing = false)
    (htemporary : ∀ name : String, name ≠ save.temporaryName →
      state'.disk.temporary[name]? = state.disk.temporary[name]?)
    (hblobs : ∀ name : String, name ≠ save.blobName →
      state'.disk.blobs[name]? = state.disk.blobs[name]?)
    (hflushed : Request.flushed (.saving save stage) = some save →
      state'.disk.temporary[save.temporaryName]? = some save.bytes)
    (hplaced : Request.placed (.saving save stage) = some save →
      state'.disk.blobs[save.blobName]? = some save.bytes)
    (htables : state'.tables = state.tables) (hlog : state'.log = state.log)
    (hdrawn : state'.drawn = state.drawn) (htasks : state'.tasks = state.tasks)
    (hrunning : state'.running = state.running) :
    Intact codec (state'.setTask id (.saving save stage) old.dropped) ∧
      Intact codec (state'.proceed id old (.saving save stage)) := by
  have hself := h.tasks id old hid
  have hfresh := hself.coming save hold
  have hothers : ∀ (j : Nat) (other : Task), j ≠ id → state.tasks[j]? = some other →
      state'.TaskOk other := by
    intro j other hne hj
    have hapart := h.apart id j old other (Ne.symm hne) hid hj
    refine (h.tasks j other hj).mono (fun n hm => hdrawn ▸ hm) (hlog ▸ List.prefix_refl _)
      (fun _ _ commit hm => .inl (hlog ▸ hm)) (fun save' hf => ?_) (fun save' hp => ?_)
      (fun object n hw hn => ?_) fun n _ key row hr => .inl (htables ▸ hr)
    · have hnames := hapart.names save save' (Request.coming_save hold)
        (Request.coming_save (Request.flushed_coming hf))
      exact htemporary _ (Ne.symm hnames.2)
    · have hnames := hapart.names save save' (Request.coming_save hold)
        (Request.coming_save (Request.placed_coming hp))
      exact hblobs _ (Ne.symm hnames.1)
    · refine hblobs n fun he => ?_
      obtain ⟨commit, hm, ho⟩ := (h.tasks j other hj).wanted_logged hw
      refine hfresh commit hm ?_
      rw [ho, hn, he]
  have hstored : Stored codec state' := by
    refine ⟨hlog ▸ h.stored.sized, ?_, hlog ▸ h.stored.growing, ?_, hlog ▸ h.stored.distinct,
      fun key row hr => ?_⟩
    · rw [hlog, hdrawn]
      exact h.stored.named
    · rw [hlog, htables]
      exact h.stored.counted
    · rw [htables] at hr
      obtain ⟨commit, hc⟩ := h.stored.rows key row hr
      refine ⟨commit, hlog ▸ hc.logged, hc.object, ?_, hlog ▸ hc.last⟩
      refine (hblobs _ fun he => hfresh commit hc.logged ?_).trans hc.bytes
      rw [(storedObject_ok hc.object).2, he]
  have htask : ∀ dropped, state'.TaskOk ⟨.saving save stage, dropped⟩ := by
    intro dropped
    have hold' : state'.TaskOk ⟨.saving save .opening, dropped⟩ := by
      have hopening : state.TaskOk ⟨.saving save .opening, dropped⟩ :=
        taskOk_coming hself hold rfl (fun hf => by cases hf) fun hp => by cases hp
      exact hopening.mono (fun n hm => hdrawn ▸ hm) (hlog ▸ List.prefix_refl _)
        (fun _ _ commit hm => .inl (hlog ▸ hm)) (fun _ hf => by cases hf)
        (fun _ hp => by cases hp) (fun _ _ hw => by cases hw) fun _ hg => by cases hg
    exact taskOk_coming hold' rfl hgoing hflushed hplaced
  have hapart : ∀ dropped, ∀ (j : Nat) (other : Task), j ≠ id → state.tasks[j]? = some other →
      Apart ⟨.saving save stage, dropped⟩ other ∧ Apart other ⟨.saving save stage, dropped⟩ := by
    intro dropped j other hne hj
    refine h.apart_within hid (within_coming hold hgoing) (LockOk.calm (hcalm dropped) ?_) hne hj
    simp [Task.reading]
  exact ⟨h.setTask hid htasks hrunning hstored hothers (htask _) (hapart _),
    h.proceed hid htasks hrunning hstored hothers (fun _ => htask _) fun _ => hapart _⟩

/-- A save to come is in no row. -/
theorem Intact.unused (h : Intact codec state) {save : Save}
    (hfresh : ∀ commit ∈ state.log, commit.object.blobName ≠ some save.blobName)
    {key : ObjectKey} {row : ObjectRow μ} (hr : state.tables.rows[key]? = some row) :
    row.blobName ≠ save.blobName := by
  obtain ⟨commit, hc⟩ := h.stored.rows key row hr
  intro he
  refine hfresh commit hc.logged ?_
  rw [(storedObject_ok hc.object).2, he]

theorem Intact.refused (h : Intact codec state) {id : Nat} (hid : state.tasks[id]? = some old)
    {save : Save} {now : String} (hrequest : old.request = .saving save (.submitted now))
    (error : PersistenceError) :
    Intact codec (state.proceed id old (.saving save (.refused error))) := by
  have hold : old.request.coming = some save := by rw [hrequest]; rfl
  have hself := h.tasks id old hid
  refine h.proceed hid rfl rfl h.stored (fun j other _ hj => h.tasks j other hj) (fun hd => ?_)
    fun hd j other hne hj => ?_
  · refine ⟨fun save' hs => ?_, fun _ hs => (by cases hs), fun _ hs => (by cases hs),
      fun _ hs => (by cases hs), fun name hg => ?_, fun _ _ _ he => by cases he⟩
    · obtain rfl : save = save' := Option.some.inj hs
      exact hself.drawn save (Request.coming_save hold)
    · obtain rfl : save.blobName = name := Option.some.inj hg
      exact ⟨(hself.drawn save (Request.coming_save hold)).1,
        fun key row hr => h.unused (hself.coming save hold) hr⟩
  · have hwriting : old.writing = true := by rw [Task.writing, hrequest, hd]; rfl
    have hreading : old.reading = false := by rw [Task.reading, hrequest, hd]; rfl
    have hlock := h.lock_kept hid ⟨.saving save (.refused error), false⟩
        hwriting.symm hreading.symm j other hne hj
    have hapart := h.apart id j old other (Ne.symm hne) hid hj
    have hapart' := h.apart j id other old hne hj hid
    have hsave : ∀ save', Request.save? (.saving save (.refused error)) = some save' →
        old.request.save? = some save' := by
      intro save' hs
      rw [hrequest]
      exact hs
    refine ⟨⟨fun save' other' hs => hapart.names save' other' (hsave save' hs),
      fun name save' hg hcoming => ?_, fun name object _ hw => ?_, hlock.1⟩,
      ⟨fun save' other' hs hs' => hapart'.names save' other' hs (hsave other' hs'),
        fun _ _ _ hs => (by cases hs), fun _ _ _ hs => (by cases hs), hlock.2⟩⟩
    · obtain rfl : save.blobName = name := Option.some.inj hg
      exact Ne.symm (hapart.names save save' (Request.coming_save hold)
        (Request.coming_save hcoming)).1
    · rw [h.none_wanted hid hwriting hne hj] at hw
      cases hw

/-- The stores after the transaction of a save. -/
theorem Intact.stored_committed (h : Intact codec state) {id : Nat}
    (hid : state.tasks[id]? = some old) {save : Save} {now token : String}
    (hrequest : old.request = .saving save (.submitted now)) {tables : ObjectTables μ π}
    {object : StoredObject} {replaced : Option String}
    (hsave : state.tables.saveObject codec event save now token =
      .ok (tables, object, replaced)) :
    Stored codec
      ({ state with tables, log := state.log ++ [⟨object, save.bytes⟩] } : Lifecycle μ π) := by
  obtain ⟨rfl, hrows, hgeneration, -⟩ := saveObject_ok hsave
  have hold : old.request.coming = some save := by rw [hrequest]; rfl
  have hself := h.tasks id old hid
  have hfresh := hself.coming save hold
  obtain ⟨hdrawn, -, hcanonical⟩ := hself.drawn save (Request.coming_save hold)
  have hcounted : ∀ commit ∈ state.log, commit.object.generation < state.tables.generation + 1 :=
    fun commit hm => Nat.lt_succ_of_le (h.stored.counted commit hm)
  refine ⟨fun commit hm => ?_, fun commit hm => ?_, ?_, fun commit hm => ?_, ?_,
    fun key row hr => ?_⟩
  · rcases List.mem_append.mp hm with hm | hm
    · exact h.stored.sized commit hm
    · rw [List.mem_singleton.mp hm]
      exact ⟨rfl, rfl⟩
  · rcases List.mem_append.mp hm with hm | hm
    · exact h.stored.named commit hm
    · rw [List.mem_singleton.mp hm]
      exact ⟨save.blobName, rfl, hcanonical, hdrawn⟩
  · rw [List.pairwise_append]
    refine ⟨h.stored.growing, List.pairwise_singleton _ _, fun commit hm later hl => ?_⟩
    rw [List.mem_singleton.mp hl]
    exact hcounted commit hm
  · change commit.object.generation ≤ tables.generation
    rw [hgeneration]
    rcases List.mem_append.mp hm with hm | hm
    · exact Nat.le_of_lt (hcounted commit hm)
    · rw [List.mem_singleton.mp hm]
      exact Nat.le_refl _
  · rw [List.map_append, List.nodup_append]
    refine ⟨h.stored.distinct, List.nodup_singleton _, fun name hn name' hn' he => ?_⟩
    obtain ⟨commit, hm, rfl⟩ := List.mem_map.mp hn
    rw [List.map_singleton, List.mem_singleton] at hn'
    exact hfresh commit hm (he.trans hn')
  · change tables.rows[key]? = some row at hr
    rw [hrows, ExtTreeMap.getElem?_insert] at hr
    simp only [LawfulEqOrd.compare_eq_iff_eq] at hr
    split at hr
    · rename_i hkey
      subst hkey
      obtain rfl := Option.some.inj hr
      refine ⟨⟨state.tables.savedObject codec save now token, save.bytes⟩,
        List.mem_append_right _ (List.mem_singleton_self _), storedObject_savedObject _ _ _ _,
        hself.placed save (by rw [hrequest]; rfl), fun other hm _ => ?_⟩
      rcases List.mem_append.mp hm with hm | hm
      · exact Nat.le_of_lt (hcounted other hm)
      · rw [List.mem_singleton.mp hm]
    · rename_i hkey
      obtain ⟨commit, hc⟩ := h.stored.rows key row hr
      refine ⟨commit, List.mem_append_left _ hc.logged, hc.object, hc.bytes, fun other hm hk => ?_⟩
      rcases List.mem_append.mp hm with hm | hm
      · exact hc.last other hm hk
      · rw [List.mem_singleton.mp hm] at hk
        exact absurd hk hkey

theorem Intact.committed (h : Intact codec state) {id : Nat} (hid : state.tasks[id]? = some old)
    {save : Save} {now token : String} (hrequest : old.request = .saving save (.submitted now))
    {tables : ObjectTables μ π} {object : StoredObject} {replaced : Option String}
    (hsave : state.tables.saveObject codec event save now token =
      .ok (tables, object, replaced)) :
    Intact codec (({ state with tables, log := state.log ++ [⟨object, save.bytes⟩] } :
      Lifecycle μ π).proceed id old (.saving save (.committed object replaced))) := by
  have hstored := h.stored_committed hid hrequest hsave
  obtain ⟨hobject, hrows, -, hreplaced⟩ := saveObject_ok hsave
  have hold : old.request.coming = some save := by rw [hrequest]; rfl
  have hself := h.tasks id old hid
  have hfresh := hself.coming save hold
  have hname : object.blobName = some save.blobName := by rw [hobject]; rfl
  have hrow : ∀ (key : ObjectKey) (row : ObjectRow μ), tables.rows[key]? = some row →
      save.key ≠ key ∧ state.tables.rows[key]? = some row ∨ row.blobName = save.blobName := by
    intro key row hr
    rw [hrows, ExtTreeMap.getElem?_insert] at hr
    simp only [LawfulEqOrd.compare_eq_iff_eq] at hr
    split at hr
    · exact .inr ((Option.some.inj hr) ▸ rfl)
    · exact .inl ⟨‹_›, hr⟩
  have hothers : ∀ (j : Nat) (other : Task), j ≠ id → state.tasks[j]? = some other →
      ({ state with tables, log := state.log ++ [⟨object, save.bytes⟩] } :
        Lifecycle μ π).TaskOk other := by
    intro j other hne hj
    have hapart := h.apart id j old other (Ne.symm hne) hid hj
    have hapart' := h.apart j id other old hne hj hid
    refine (h.tasks j other hj).mono (fun _ hm => hm) (List.prefix_append _ _)
      (fun save' hc commit hm => ?_) (fun _ _ => rfl) (fun _ _ => rfl) (fun _ _ _ _ => rfl)
      fun name hg key row hr => ?_
    · rcases List.mem_append.mp hm with hm | hm
      · exact .inl hm
      · right
        rw [List.mem_singleton.mp hm, hname]
        intro he
        exact (hapart.names save save' (Request.coming_save hold) (Request.coming_save hc)).1
          (Option.some.inj he)
    · rcases hrow key row hr with ⟨-, hr⟩ | hblob
      · exact .inl hr
      · exact .inr (hblob ▸ hapart'.coming name save hg hold)
  have hlast : ∀ name, replaced = some name → ∃ row, state.tables.rows[save.key]? = some row ∧
      row.blobName = name := by
    intro name hn
    rw [hreplaced] at hn
    exact Option.map_eq_some_iff.mp hn
  refine h.proceed hid rfl rfl hstored hothers (fun hd => ?_) fun hd j other hne hj => ?_
  · refine ⟨fun save' hs => ?_, fun _ hs => (by cases hs), fun _ hs => (by cases hs),
      fun _ hs => (by cases hs), fun name hg => ?_, fun _ _ _ he => by cases he⟩
    · obtain rfl : save = save' := Option.some.inj hs
      exact hself.drawn save (Request.coming_save hold)
    · obtain ⟨row, hr, hblob⟩ := hlast name hg
      obtain ⟨commit, hc⟩ := h.stored.rows save.key row hr
      obtain ⟨name', hn', -, hdrawn⟩ := h.stored.named commit hc.logged
      rw [(storedObject_ok hc.object).2, hblob] at hn'
      obtain rfl := Option.some.inj hn'
      refine ⟨hdrawn, fun key row' hr' he => ?_⟩
      rcases hrow key row' hr' with ⟨hne, hr''⟩ | hblob'
      · exact hne (h.stored.row_unique hr hr'' (hblob.trans he.symm))
      · exact h.unused hfresh hr (hblob.trans (he.symm.trans hblob'))
  · have hwriting : old.writing = true := by rw [Task.writing, hrequest, hd]; rfl
    have hreading : old.reading = false := by rw [Task.reading, hrequest, hd]; rfl
    have hlock := h.lock_kept hid ⟨.saving save (.committed object replaced), false⟩
        hwriting.symm hreading.symm j other hne hj
    have hapart := h.apart id j old other (Ne.symm hne) hid hj
    have hapart' := h.apart j id other old hne hj hid
    have hsame : ∀ save', Request.save? (.saving save (.committed object replaced)) = some save' →
        old.request.save? = some save' := by
      intro save' hs
      rw [hrequest]
      exact hs
    refine ⟨⟨fun save' other' hs => hapart.names save' other' (hsame save' hs),
      fun name save' hg hcoming => ?_, fun name object _ hw => ?_, hlock.1⟩,
      ⟨fun save' other' hs hs' => hapart'.names save' other' hs (hsame other' hs'),
        fun _ _ _ hs => (by cases hs), fun _ _ _ hs => (by cases hs), hlock.2⟩⟩
    · obtain ⟨row, hr, hblob⟩ := hlast name hg
      have hunused := h.unused ((h.tasks j other hj).coming save' hcoming) hr
      rw [hblob] at hunused
      exact Ne.symm hunused
    · rw [h.none_wanted hid hwriting hne hj] at hw
      cases hw

/-- The temporary file of a save that failed is removed. -/
theorem Intact.cleaned (h : Intact codec state) {id : Nat} (hid : state.tasks[id]? = some old)
    {save : Save} {error : PersistenceError} {reply : Reply}
    (hrequest : old.request = .saving save (.broken error)) :
    Intact codec ((state.removeTemporary save).proceed id old
      (.saving save (.answered reply))) := by
  have hsave : old.request.save? = some save := by rw [hrequest]; rfl
  have hidle : Idle (.saving save (.answered reply)) := idle_saving rfl rfl
  have hkept : ∀ save', Request.save? (.saving save (.answered reply)) = some save' →
      old.request.save? = some save' := by
    intro save' hs
    rw [hrequest]
    exact hs
  have hsame : ∀ name : String, name ≠ save.temporaryName →
      (state.removeTemporary save).disk.temporary[name]? = state.disk.temporary[name]? := by
    intro name hn
    change (state.disk.temporary.erase save.temporaryName)[name]? = _
    simp [ExtTreeMap.getElem?_erase, Ne.symm hn]
  have hstored : Stored codec (state.removeTemporary save) :=
    ⟨h.stored.sized, h.stored.named, h.stored.growing, h.stored.counted, h.stored.distinct,
      fun key row hr => (h.stored.rows key row hr).imp fun commit hc =>
        ⟨hc.logged, hc.object, hc.bytes, hc.last⟩⟩
  refine h.proceed hid rfl rfl hstored (fun j other hne hj => ?_) (fun _ => ?_)
    fun _ j other hne hj => ?_
  · have hapart := h.apart id j old other (Ne.symm hne) hid hj
    refine (h.tasks j other hj).mono (fun _ hm => hm) (List.prefix_refl _)
      (fun _ _ _ hm => .inl hm) (fun save' hf => hsame _ ?_) (fun _ _ => rfl)
      (fun _ _ _ _ => rfl) fun _ _ _ _ hr => .inl hr
    exact Ne.symm (hapart.names save save' hsave
      (Request.coming_save (Request.flushed_coming hf))).2
  · have hdone : state.TaskOk ⟨.saving save (.answered reply), false⟩ :=
      hidle.taskOk hkept (h.tasks id old hid)
    exact hdone.mono (fun _ hm => hm) (List.prefix_refl _) (fun _ _ _ hm => .inl hm)
      (fun _ hf => by cases hf) (fun _ hp => by cases hp) (fun _ _ hw => by cases hw)
      fun _ _ _ _ hr => .inl hr
  · exact h.apart_within hid (hidle.within hkept) (LockOk.calm rfl rfl) hne hj

theorem Intact.advanceSave (h : Intact codec state) {id : Nat} {save : Save} {stage : SaveStage}
    (hid : state.tasks[id]? = some old) (hrequest : old.request = .saving save stage)
    (input : Input) :
    Intact codec (state.advanceSave codec event id old save input stage) := by
  have hself := h.tasks id old hid
  have hkept : ∀ (stage : SaveStage) (save' : Save),
      Request.save? (.saving save stage) = some save' → old.request.save? = some save' := by
    intro _ save' hs
    rw [hrequest]
    exact hs
  have hbroken : ∀ error : PersistenceError,
      Intact codec (state.proceed id old (.saving save (.broken error))) :=
    fun _ => h.idle hid (idle_saving rfl rfl) (hkept _) fun _ => LockOk.calm (by rfl) rfl
  have hinsert : ∀ (bytes : Bytes) (name : String), name ≠ save.temporaryName →
      (state.writeTemporary save bytes).disk.temporary[name]? = state.disk.temporary[name]? := by
    intro bytes name hn
    change (state.disk.temporary.insert save.temporaryName bytes)[name]? = _
    simp [ExtTreeMap.getElem?_insert, Ne.symm hn]
  cases stage with
  | opening =>
    have hold : old.request.coming = some save := by rw [hrequest]; rfl
    change Intact codec (if _ then _ else _)
    split
    · exact (h.filed hid .opened hold rfl (fun dropped => by cases dropped <;> rfl)
        (hinsert _) (fun _ _ => rfl) (fun hf => by cases hf) (fun hp => by cases hp) rfl rfl rfl
        rfl rfl).1
    · exact hbroken _
  | opened =>
    have hold : old.request.coming = some save := by rw [hrequest]; rfl
    change Intact codec (if _ then _ else _)
    split
    · refine (h.filed hid .written hold rfl (fun dropped => by cases dropped <;> rfl)
        (hinsert _) (fun _ _ => rfl) (fun _ => ?_) (fun hp => by cases hp) rfl rfl rfl rfl rfl).1
      change (state.disk.temporary.insert save.temporaryName save.bytes)[save.temporaryName]? = _
      simp
    · exact hbroken _
  | written =>
    have hold : old.request.coming = some save := by rw [hrequest]; rfl
    have hflushed := hself.flushed save (by rw [hrequest]; rfl)
    change Intact codec (if _ then _ else _)
    split
    · have htemporary : ∀ name : String, name ≠ save.temporaryName →
          (state.rename save).disk.temporary[name]? = state.disk.temporary[name]? := by
        intro name hn
        change (state.disk.temporary.erase save.temporaryName)[name]? = _
        simp [ExtTreeMap.getElem?_erase, Ne.symm hn]
      have hblobs : ∀ name : String, name ≠ save.blobName →
          (state.rename save).disk.blobs[name]? = state.disk.blobs[name]? := by
        intro name hn
        change (state.disk.blobs.insert save.blobName _)[name]? = _
        simp [ExtTreeMap.getElem?_insert, Ne.symm hn]
      have hplaced : (state.rename save).disk.blobs[save.blobName]? = some save.bytes := by
        change (state.disk.blobs.insert save.blobName _)[save.blobName]? = _
        simp [hflushed]
      exact (h.filed hid .renamed hold rfl (fun dropped => by cases dropped <;> rfl) htemporary
        hblobs (fun hf => by cases hf) (fun _ => hplaced) rfl rfl rfl rfl rfl).1
    · exact hbroken _
  | renamed =>
    have hold : old.request.coming = some save := by rw [hrequest]; rfl
    have hplaced := hself.placed save (by rw [hrequest]; rfl)
    change Intact codec (if _ then _ else _)
    split
    · exact (h.filed hid (.stored input.now) hold rfl
        (fun dropped => by cases dropped <;> rfl) (fun _ _ => rfl) (fun _ _ => rfl)
        (fun hf => by cases hf) (fun _ => hplaced) rfl rfl rfl rfl rfl).2
    · exact hbroken _
  | stored now =>
    have hold : old.request.coming = some save := by rw [hrequest]; rfl
    have hplaced := hself.placed save (by rw [hrequest]; rfl)
    change Intact codec (if state.free then _ else _)
    split
    · rename_i hfree
      exact h.quiet hid (within_coming hold rfl)
        (fun _ => taskOk_coming hself hold rfl (fun hf => by cases hf) fun _ => hplaced)
        fun _ => lock_taken hfree
    · exact h
  | locked now =>
    have hold : old.request.coming = some save := by rw [hrequest]; rfl
    have hplaced := hself.placed save (by rw [hrequest]; rfl)
    refine h.quiet hid (within_coming hold rfl)
      (fun _ => taskOk_coming hself hold rfl (fun hf => by cases hf) fun _ => hplaced)
      fun hd => h.lock_kept hid _ ?_ ?_
    · rw [Task.writing, Task.writing, hrequest, hd]
    · rw [Task.reading, Task.reading, hrequest, hd]
  | submitted now =>
    change Intact codec (state.commitSave codec event id old save now input)
    unfold commitSave
    split
    · rename_i tables object replaced hsave
      split at hsave
      · exact h.committed hid hrequest hsave
      · cases hsave
    · exact h.refused hid hrequest _
  | committed object replaced =>
    unfold Lifecycle.advanceSave
    dsimp only
    cases hfilter : replaced.filter (· != save.blobName) with
    | none =>
      exact h.idle hid (idle_saving rfl rfl) (hkept _) fun _ => LockOk.calm rfl rfl
    | some name =>
      have hgoing : old.request.going = some name := by
        rw [hrequest]
        exact (Option.filter_eq_some_iff.mp hfilter).1
      refine h.unlinked hid name hgoing (idle_saving rfl rfl) (hkept _) rfl (fun n hn => ?_) ?_ rfl rfl
        rfl rfl rfl
      · exact removeBlob_other hn
      · exact removeBlob_temporary
  | refused error =>
    refine h.unlinked hid save.blobName (by rw [hrequest]; rfl) (idle_saving rfl rfl)
      (hkept _) rfl (fun n hn => ?_) rfl rfl rfl rfl rfl rfl
    change (state.disk.blobs.erase save.blobName)[n]? = _
    simp [ExtTreeMap.getElem?_erase, Ne.symm hn]
  | broken error => exact h.cleaned hid hrequest
  | answered reply => exact h

theorem Intact.advance (h : Intact codec state) (id : Nat) (input : Input) :
    Intact codec (state.advance codec event id input) := by
  unfold Lifecycle.advance
  split
  · exact h
  · rename_i task hid
    split
    · exact h.advanceSave hid ‹_› input
    · exact h.advanceRemove hid ‹_› input
    · exact h.advanceRead hid ‹_›

theorem Intact.drawing (h : Intact codec state) {drawn : List String}
    (hdrawn : ∀ name ∈ state.drawn, name ∈ drawn) :
    Intact codec ({ state with drawn } : Lifecycle μ π) := by
  refine ⟨⟨h.stored.sized, fun commit hm => ?_, h.stored.growing, h.stored.counted,
    h.stored.distinct, fun key row hr => ?_⟩, fun id task hid => ?_, h.apart, h.stopped⟩
  · obtain ⟨name, hn, hcanonical, hname⟩ := h.stored.named commit hm
    exact ⟨name, hn, hcanonical, hdrawn name hname⟩
  · obtain ⟨commit, hc⟩ := h.stored.rows key row hr
    exact ⟨commit, hc.logged, hc.object, hc.bytes, hc.last⟩
  · exact (h.tasks id task hid).mono hdrawn (List.prefix_refl _) (fun _ _ _ hm => .inl hm)
      (fun _ _ => rfl) (fun _ _ => rfl) (fun _ _ _ _ => rfl) fun _ _ _ _ hr => .inl hr

/-- A request that comes in. -/
theorem Intact.arrive (h : Intact codec state) (id : Nat) {request : Request}
    (htask : state.TaskOk ⟨request, false⟩)
    (hnames : ∀ (j : Nat) (other : Task), state.tasks[j]? = some other →
      ∀ save save', request.save? = some save → other.request.save? = some save' →
        save.blobName ≠ save'.blobName ∧ save.temporaryName ≠ save'.temporaryName)
    (hcoming : ∀ (j : Nat) (other : Task), state.tasks[j]? = some other →
      ∀ name save, other.request.going = some name → request.coming = some save →
        save.blobName ≠ name)
    (hgoing : request.going = none) (hwanted : request.wanted = none)
    (hwriting : (⟨request, false⟩ : Task).writing = false)
    (hreading : (⟨request, false⟩ : Task).reading = false) :
    Intact codec (state.arrive id request) := by
  unfold Lifecycle.arrive
  split
  · rename_i hfree
    simp only [Bool.and_eq_true, Bool.not_eq_true'] at hfree
    have hsame : state.SameStores (state.setTask id request false) := ⟨rfl, rfl, rfl, rfl, rfl⟩
    refine h.replace id (some ⟨request, false⟩) (fun j => ?_) hfree.1 (h.stored.same hsame)
      (fun j other _ hj => (h.tasks j other hj).same hsame) fun task ht => ?_
    · change (state.tasks.insert id _)[j]? = _
      rw [ExtTreeMap.getElem?_insert]
      simp only [LawfulEqOrd.compare_eq_iff_eq]
    · obtain rfl := Option.some.inj ht
      refine ⟨htask.same hsame, fun j other hne hj => ⟨⟨fun save save' hs hs' =>
        hnames j other hj save save' hs hs', fun name save hg => ?_, fun name object hg => ?_,
        fun hw => ?_⟩, ⟨fun save save' hs hs' => ?_, fun name save hg hc => ?_,
        fun name object _ hw => ?_, fun _ => ⟨hwriting, hreading⟩⟩⟩⟩
      · rw [hgoing] at hg
        cases hg
      · rw [hgoing] at hg
        cases hg
      · rw [hwriting] at hw
        cases hw
      · obtain ⟨hblob, htemporary⟩ := hnames j other hj save' save hs' hs
        exact ⟨Ne.symm hblob, Ne.symm htemporary⟩
      · exact hcoming j other hj name save hg hc
      · rw [hwanted] at hw
        cases hw
  · exact h

theorem Intact.save (h : Intact codec state) (id : Nat) {save : Save}
    (hfresh : state.Fresh (.save id save)) :
    Intact codec (state.step codec event (.save id save)) := by
  obtain ⟨hcanonical, hblob, htemporary⟩ := hfresh
  have hold : ∀ name ∈ state.drawn, save.blobName ≠ name ∧ save.temporaryName ≠ name := by
    intro name hm
    exact ⟨fun he => hblob (he ▸ hm), fun he => htemporary (he ▸ hm)⟩
  have hdrawn : Intact codec ({ state with
      drawn := save.blobName :: save.temporaryName :: state.drawn } : Lifecycle μ π) :=
    h.drawing fun name hm => List.mem_cons_of_mem _ (List.mem_cons_of_mem _ hm)
  refine hdrawn.arrive id ⟨fun save' hs => ?_, fun save' hc commit hm => ?_,
    fun _ hs => (by cases hs), fun _ hs => (by cases hs), fun _ hs => (by cases hs),
    fun _ _ _ hs => by cases hs⟩ (fun j other hj save' other' hs hs' => ?_)
    (fun j other hj name save' hg hc => ?_) rfl rfl rfl rfl
  · obtain rfl : save = save' := Option.some.inj hs
    exact ⟨List.mem_cons_self, List.mem_cons_of_mem _ List.mem_cons_self, hcanonical⟩
  · obtain rfl : save = save' := Option.some.inj hc
    obtain ⟨name, hn, -, hname⟩ := h.stored.named commit hm
    rw [hn]
    intro he
    exact (hold name hname).1 (Option.some.inj he).symm
  · obtain rfl : save = save' := Option.some.inj hs
    obtain ⟨hb, ht, -⟩ := (h.tasks j other hj).drawn other' hs'
    exact ⟨(hold _ hb).1, (hold _ ht).2⟩
  · obtain rfl : save = save' := Option.some.inj hc
    exact (hold name ((h.tasks j other hj).going name hg).1).1

theorem Intact.drop (h : Intact codec state) (id : Nat) (started : Bool) :
    Intact codec (state.drop id started) := by
  unfold Lifecycle.drop
  split
  · exact h
  · rename_i task hid
    split
    · rename_i hdetached
      have hself := h.tasks id task hid
      have hwrites : ∀ key since stage, task.request ≠ .reading key since stage := by
        intro key since stage he
        rw [he] at hdetached
        cases hdetached
      refine h.setTask hid rfl rfl h.stored (fun j other _ hj => h.tasks j other hj)
        ⟨hself.drawn, hself.coming, hself.flushed, hself.placed, hself.going,
          fun key since stage he => absurd he (hwrites key since stage)⟩ fun j other hne hj => ?_
      have hw : Within ⟨task.request, true⟩ task :=
        ⟨fun _ hs => hs, fun _ hs => hs, fun _ hs => hs, fun _ hs => hs⟩
      exact h.apart_within hid hw (LockOk.calm rfl rfl) hne hj
    · have hsame : state.SameStores (state.endTask id) := ⟨rfl, rfl, rfl, rfl, rfl⟩
      refine h.replace id none (fun j => ?_) (h.running hid) (h.stored.same hsame)
        (fun j other _ hj => (h.tasks j other hj).same hsame) fun task ht => by cases ht
      change (state.tasks.erase id)[j]? = _
      rw [ExtTreeMap.getElem?_erase]
      simp only [LawfulEqOrd.compare_eq_iff_eq]

theorem Stored.generation_unique (h : Stored codec state) {commit other : Commit}
    (ho : other ∈ state.log) (hc : commit ∈ state.log)
    (he : other.object.generation = commit.object.generation) : other = commit := by
  have hnodup : (state.log.map fun commit => commit.object.generation).Nodup := by
    rw [List.Nodup, List.pairwise_map]
    exact h.growing.imp fun hlt => Nat.ne_of_lt hlt
  exact List.inj_on_of_nodup_map hnodup ho hc he

/-- Every blob that a row names is there, under a name that is a blob id. -/
theorem Stored.referenced (h : Stored codec state) {name : String}
    (hm : name ∈ state.tables.referenced) :
    canonicalUuid name = true ∧ ∃ bytes, state.disk.blobs[name]? = some bytes := by
  obtain ⟨key, row, hr, rfl⟩ := mem_referenced.mp hm
  obtain ⟨commit, hc⟩ := h.rows key row hr
  obtain ⟨name, hn, hcanonical, -⟩ := h.named commit hc.logged
  rw [(storedObject_ok hc.object).2] at hn
  exact ⟨Option.some.inj hn ▸ hcanonical, commit.bytes, hc.bytes⟩

/-- A start finds all blobs and leaves only them. -/
theorem Stored.recoverBlobs (h : Stored codec state) :
    state.disk.recoverBlobs state.tables.referenced =
      .ok ⟨state.disk.blobs.filter fun name _ => state.tables.referenced.contains name, ∅⟩ := by
  have hfind : state.tables.referenced.find?
      (fun name => !canonicalUuid name || !state.disk.blobs.contains name) = none := by
    rw [List.find?_eq_none]
    intro name hm
    obtain ⟨hcanonical, bytes, hb⟩ := h.referenced hm
    have hthere : state.disk.blobs.contains name = true := by
      rw [ExtTreeMap.contains_eq_isSome_getElem?, hb]
      rfl
    simp [hcanonical, hthere]
  rw [Disk.recoverBlobs, hfind]

/-- The blobs change, but not those that rows name. -/
theorem Stored.swept (h : Stored codec state) (hlog : state'.log = state.log)
    (htables : state'.tables = state.tables) (hdrawn : state'.drawn = state.drawn)
    (hblobs : ∀ name ∈ state.tables.referenced,
      state'.disk.blobs[name]? = state.disk.blobs[name]?) : Stored codec state' := by
  refine ⟨hlog ▸ h.sized, ?_, hlog ▸ h.growing, ?_, hlog ▸ h.distinct, fun key row hr => ?_⟩
  · rw [hlog, hdrawn]
    exact h.named
  · rw [hlog, htables]
    exact h.counted
  · rw [htables] at hr
    obtain ⟨commit, hc⟩ := h.rows key row hr
    refine ⟨commit, hlog ▸ hc.logged, hc.object, ?_, hlog ▸ hc.last⟩
    exact (hblobs _ (mem_referenced.mpr ⟨key, row, hr, rfl⟩)).trans hc.bytes

/-- A state without requests is right when its stores are. -/
theorem Stored.intact (h : Stored codec state) (hnone : ∀ id : Nat, state.tasks[id]? = none) :
    Intact codec state := by
  refine ⟨h, fun id task hid => ?_, fun id id' task other _ hid => ?_, fun _ => hnone⟩
  · rw [hnone id] at hid
    cases hid
  · rw [hnone id] at hid
    cases hid

theorem Intact.step (h : Intact codec state) {ev : LifecycleEvent π} (hfresh : state.Fresh ev) :
    Intact codec (state.step codec event ev) := by
  cases ev with
  | save id save => exact h.save id hfresh
  | remove id key =>
    refine h.arrive id ⟨fun _ hs => (by cases hs), fun _ hs => (by cases hs),
      fun _ hs => (by cases hs), fun _ hs => (by cases hs), fun _ hs => (by cases hs),
      fun _ _ _ hs => by cases hs⟩ (fun _ _ _ _ _ hs => by cases hs)
      (fun _ _ _ _ _ _ hs => by cases hs) rfl rfl rfl rfl
  | read id key =>
    exact h.arrive id (taskOk_reading (Nat.le_refl _) trivial)
      (fun _ _ _ _ _ hs => by cases hs) (fun _ _ _ _ _ _ hs => by cases hs) rfl rfl rfl rfl
  | advance id input => exact h.advance id input
  | drop id started => exact h.drop id started
  | others outbox =>
    have hsame : state.SameStores
        ({ state with tables := { state.tables with outbox } } : Lifecycle μ π) :=
      ⟨rfl, rfl, rfl, rfl, rfl⟩
    exact ⟨h.stored.same hsame, fun id task hid => (h.tasks id task hid).same hsame, h.apart,
      h.stopped⟩
  | crash =>
    have hstored : Stored codec state.crash := h.stored.swept rfl rfl rfl fun _ _ => rfl
    exact hstored.intact fun id => ExtTreeMap.getElem?_empty
  | sweep name =>
    change Intact codec (state.sweep name)
    unfold Lifecycle.sweep
    split
    · exact h
    · rename_i hstopped
      simp only [Bool.or_eq_true, not_or, Bool.not_eq_true] at hstopped
      refine Stored.intact (h.stored.swept rfl rfl rfl fun other hm => ?_) fun id =>
        h.stopped hstopped.1 id
      have hne : name ≠ other := by
        intro he
        have hnot : name ∉ state.tables.referenced := by simpa using hstopped.2
        exact hnot (he ▸ hm)
      change (state.disk.blobs.erase name)[other]? = _
      simp [ExtTreeMap.getElem?_erase, hne]
  | recover =>
    change Intact codec state.recover
    unfold Lifecycle.recover
    split
    · exact h
    · rename_i hstopped
      simp only [Bool.not_eq_true] at hstopped
      rw [h.stored.recoverBlobs]
      refine Stored.intact (h.stored.swept rfl rfl rfl fun other hm => ?_) fun id =>
        h.stopped hstopped id
      change (state.disk.blobs.filter _)[other]? = _
      rw [getElem?_filterKeys, if_pos (List.contains_iff_mem.mpr hm)]

theorem start_intact (eventsEnabled : Bool) :
    Intact codec (Lifecycle.start (.empty eventsEnabled) ⟨∅, ∅⟩ : Lifecycle μ π) := by
  have hstored : Stored codec (Lifecycle.start (.empty eventsEnabled) ⟨∅, ∅⟩ : Lifecycle μ π) :=
    ⟨List.forall_mem_nil _, List.forall_mem_nil _, .nil, List.forall_mem_nil _, List.nodup_nil,
      fun key row hr => by
        rw [show (Lifecycle.start (.empty eventsEnabled) ⟨∅, ∅⟩ : Lifecycle μ π).tables.rows[key]? =
          none from ExtTreeMap.getElem?_empty] at hr
        cases hr⟩
  exact hstored.intact fun id => ExtTreeMap.getElem?_empty

/-- The process starts on empty stores. -/
def Opened (state : Lifecycle μ π) : Prop :=
  ∃ eventsEnabled, state = Lifecycle.start (.empty eventsEnabled) ⟨∅, ∅⟩

theorem intact_of_reach
    (h : Reach (Lifecycle.step codec event) Lifecycle.Fresh Lifecycle.Opened state) :
    Intact codec state := by
  refine h.invariant (fun s ho => ?_) fun s ev hi hfresh => hi.step hfresh
  obtain ⟨eventsEnabled, rfl⟩ := ho
  exact start_intact eventsEnabled

end Lifecycle

/-- After any run of saves, deletes and media GETs, with failures, dropped requests and crashes
at any step, every row names a blob with the bytes of the save that wrote the row, and the next
start succeeds and leaves exactly these blobs. -/
theorem blobs_survive_crashes {state : Lifecycle μ π}
    (h : Reach (Lifecycle.step codec event) Lifecycle.Fresh Lifecycle.Opened state) :
    (∀ (key : ObjectKey) (row : ObjectRow μ), state.tables.rows[key]? = some row →
      ∃ commit ∈ state.log, commit.object.key = key ∧
        storedObject codec key row = .ok commit.object ∧
        state.disk.blobs[row.blobName]? = some commit.bytes ∧
        ∀ other ∈ state.log, other.object.key = key →
          other.object.generation ≤ commit.object.generation) ∧
    ∃ disk, state.disk.recoverBlobs state.tables.referenced = .ok disk ∧
      (∀ name : String, name ∈ disk.blobs ↔ ∃ (key : ObjectKey) (row : ObjectRow μ),
        state.tables.rows[key]? = some row ∧ row.blobName = name) ∧
      ∀ name ∈ disk.blobs, disk.blobs[name]? = state.disk.blobs[name]? := by
  have hstored := (Lifecycle.intact_of_reach h).stored
  refine ⟨fun key row hr => ?_, _, hstored.recoverBlobs, fun name => ?_, fun name hm => ?_⟩
  · obtain ⟨commit, hc⟩ := hstored.rows key row hr
    exact ⟨commit, hc.logged, (storedObject_ok hc.object).1, hc.object, hc.bytes, hc.last⟩
  · rw [← mem_referenced, mem_filter]
    constructor
    · rintro ⟨-, -, hm⟩
      exact List.contains_iff_mem.mp hm
    · intro hm
      obtain ⟨-, bytes, hb⟩ := hstored.referenced hm
      exact ⟨bytes, hb, List.contains_iff_mem.mpr hm⟩
  · obtain ⟨-, -, hm⟩ := mem_filter.mp hm
    change (state.disk.blobs.filter _)[name]? = _
    rw [getElem?_filterKeys, if_pos hm]

/-- Metadata that is its own text. -/
def plainStorageCodec : StorageCodec StoredMetadata where
  encode := id
  decode := .ok
  decode_encode _ := rfl
  crc32c _ := ""
  encodePageToken _ := ""
  decodePageToken _ := none

def sampleSave (byte : UInt8) (blobName temporaryName : String) : Save :=
  ⟨⟨"bucket", "file"⟩, [byte], ⟨none, none, none, none, []⟩, none, blobName, temporaryName⟩

def sampleBlob : String := "00000000-0000-4000-8000-000000000001"

def sampleNextBlob : String := "00000000-0000-4000-8000-000000000002"

/-- The steps of a request that meets no failure. -/
def sampleSteps (id steps : Nat) : List (LifecycleEvent Unit) :=
  List.replicate steps (.advance id ⟨true, "now", "token"⟩)

def sampleLifecycle (events : List (LifecycleEvent Unit)) : Lifecycle StoredMetadata Unit :=
  events.foldl (Lifecycle.step plainStorageCodec fun _ _ => ())
    (.start (.empty true) ⟨∅, ∅⟩)

theorem sampleSteps_fresh (state : Lifecycle StoredMetadata Unit) (id steps : Nat)
    {rest : List (LifecycleEvent Unit)}
    (h : Reach.Along (Lifecycle.step plainStorageCodec fun _ _ => ()) Lifecycle.Fresh
      ((sampleSteps id steps).foldl (Lifecycle.step plainStorageCodec fun _ _ => ()) state) rest) :
    Reach.Along (Lifecycle.step plainStorageCodec fun _ _ => ()) Lifecycle.Fresh state
      (sampleSteps id steps ++ rest) := by
  induction steps generalizing state with
  | zero => exact h
  | succ steps ih => exact ⟨trivial, ih _ h⟩

/-- A save, and an overwrite up to its commit. -/
def sampleOverwrite : List (LifecycleEvent Unit) :=
  .save 1 (sampleSave 1 sampleBlob "upload-1.tmp") :: (sampleSteps 1 8 ++
    .save 2 (sampleSave 2 sampleNextBlob "upload-2.tmp") :: (sampleSteps 2 7 ++ []))

theorem sampleOverwrite_reach : Reach (Lifecycle.step plainStorageCodec fun _ _ => ())
    Lifecycle.Fresh Lifecycle.Opened (sampleLifecycle sampleOverwrite) := by
  refine Reach.run (.start ⟨true, rfl⟩) ⟨⟨by decide +kernel, ?_, ?_⟩, ?_⟩
  · exact List.not_mem_nil
  · exact List.not_mem_nil
  · refine sampleSteps_fresh _ 1 8 ⟨⟨by decide +kernel, ?_, ?_⟩, sampleSteps_fresh _ 2 7 trivial⟩
    · decide +kernel
    · decide +kernel

/-- A process that stops between the commit of an overwrite and its removal of the old blob. -/
theorem blobs_survive_crashes_sample :
    ∃ disk, (sampleLifecycle sampleOverwrite).crash.disk.recoverBlobs
        (sampleLifecycle sampleOverwrite).crash.tables.referenced = .ok disk ∧
      (∀ name : String, name ∈ disk.blobs ↔ ∃ (key : ObjectKey) (row : ObjectRow StoredMetadata),
        (sampleLifecycle sampleOverwrite).crash.tables.rows[key]? = some row ∧
          row.blobName = name) ∧
      ∀ name ∈ disk.blobs,
        disk.blobs[name]? = (sampleLifecycle sampleOverwrite).crash.disk.blobs[name]? :=
  (blobs_survive_crashes (sampleOverwrite_reach.step .crash trivial)).2

example : (sampleLifecycle sampleOverwrite).disk.blobs.keys = [sampleBlob, sampleNextBlob] ∧
    (sampleLifecycle sampleOverwrite).tables.referenced = [sampleNextBlob] := by
  decide +kernel

/-- Every media GET that is answered answers not-found or the bytes and the metadata of one
commit of its object, and none that was overtaken before the GET began. -/
theorem media_reads_isolated {state : Lifecycle μ π}
    (h : Reach (Lifecycle.step codec event) Lifecycle.Fresh Lifecycle.Opened state) {id : Nat}
    {key : ObjectKey} {since : Nat} {reply : Reply} {dropped : Bool}
    (hid : state.tasks[id]? = some ⟨.reading key since (.answered reply), dropped⟩) :
    reply = .notFound ∨ ∃ commit ∈ state.log, commit.object.key = key ∧
      reply = mediaResponse { commit.object with bytes := some commit.bytes } ∧
      commit.object.size = commit.bytes.length ∧
      commit.object.crc32c = codec.crc32c commit.bytes ∧
      (∀ other ∈ state.log, other.object.generation = commit.object.generation →
        other = commit) ∧
      ∀ earlier ∈ state.log.take since, earlier.object.key = key →
        earlier.object.generation ≤ commit.object.generation := by
  have hintact := Lifecycle.intact_of_reach h
  obtain ⟨-, -, hanswers⟩ := (hintact.tasks id _ hid).reads key since _ rfl
  rcases hanswers with hnone | ⟨commit, hm, hkey, hrecent, hreply⟩
  · exact .inl hnone
  · obtain ⟨hsize, hcrc⟩ := hintact.stored.sized commit hm
    refine .inr ⟨commit, hm, hkey, hreply, hsize, hcrc, fun other ho hg => ?_,
      fun earlier he hk => hrecent earlier he (hk.trans hkey.symm)⟩
    exact hintact.stored.generation_unique ho hm hg

/-- A GET that comes during the overwrite and reads after it. -/
def sampleRead : List (LifecycleEvent Unit) :=
  .save 1 (sampleSave 1 sampleBlob "upload-1.tmp") :: (sampleSteps 1 8 ++
    .save 2 (sampleSave 2 sampleNextBlob "upload-2.tmp") :: (sampleSteps 2 7 ++
      .read 3 ⟨"bucket", "file"⟩ :: (sampleSteps 2 1 ++ (sampleSteps 3 4 ++ []))))

theorem sampleRead_reach : Reach (Lifecycle.step plainStorageCodec fun _ _ => ())
    Lifecycle.Fresh Lifecycle.Opened (sampleLifecycle sampleRead) := by
  refine Reach.run (.start ⟨true, rfl⟩) ⟨⟨by decide +kernel, ?_, ?_⟩, ?_⟩
  · exact List.not_mem_nil
  · exact List.not_mem_nil
  · refine sampleSteps_fresh _ 1 8 ⟨⟨by decide +kernel, ?_, ?_⟩, sampleSteps_fresh _ 2 7
      ⟨trivial, sampleSteps_fresh _ 2 1 (sampleSteps_fresh _ 3 4 trivial)⟩⟩
    · decide +kernel
    · decide +kernel

/-- The task is a media GET with its answer. -/
def Task.readAnswered (task : Task) : Bool :=
  match task.request with
  | .reading _ _ (.answered _) => true
  | _ => false

theorem media_reads_isolated_sample : ∃ key since reply dropped,
    (sampleLifecycle sampleRead).tasks[3]? =
      some ⟨.reading key since (.answered reply), dropped⟩ ∧
    (reply = .notFound ∨ ∃ commit ∈ (sampleLifecycle sampleRead).log, commit.object.key = key ∧
      reply = mediaResponse { commit.object with bytes := some commit.bytes }) := by
  have hany : ((sampleLifecycle sampleRead).tasks[3]?).any Task.readAnswered = true := by
    decide +kernel
  cases hid : (sampleLifecycle sampleRead).tasks[3]? with
  | none =>
    rw [hid] at hany
    cases hany
  | some task =>
    rw [hid] at hany
    obtain ⟨request, dropped⟩ := task
    change Task.readAnswered ⟨request, dropped⟩ = true at hany
    unfold Task.readAnswered at hany
    split at hany
    · rename_i key since reply hr
      obtain rfl : request = .reading key since (.answered reply) := hr
      refine ⟨key, since, reply, dropped, rfl, ?_⟩
      rcases media_reads_isolated sampleRead_reach hid with hnone | ⟨commit, hm, hkey, hreply, -⟩
      · exact .inl hnone
      · exact .inr ⟨commit, hm, hkey, hreply⟩
    · cases hany

end FirebaseEmu.Storage
