import FirebaseEmu.Lib.Machine
import FirebaseEmu.Storage.Tables

namespace FirebaseEmu.Storage
open Lib Std
open Functions (Outbox)

/-- Where `save_persistent_object` stands. It opens a temporary file, writes and flushes it,
renames it to its blob and flushes the directory; then it waits for the lock, sends its
transaction to the writer, and, with the lock still held, removes the blob it replaced, or its
own when the transaction failed. `broken` is a failure of the file part. -/
inductive SaveStage where
  | opening
  | opened
  | written
  | renamed
  | stored (now : String)
  | locked (now : String)
  | submitted (now : String)
  | committed (object : StoredObject) (old : Option String)
  | refused (error : PersistenceError)
  | broken (error : PersistenceError)
  | answered (reply : Reply)

/-- Where `delete_persistent_object` stands. -/
inductive RemoveStage where
  | waiting
  | locked
  | submitted
  | committed (blob : String)
  | answered (reply : Reply)

/-- Where `persistent_media` stands. -/
inductive ReadStage where
  | waiting
  | locked
  | found (object : StoredObject)
  | inspected (object : StoredObject) (name : String)
  | answered (reply : Reply)

/-- A request; a media GET notes how many saves were committed when it came. -/
inductive Request where
  | saving (save : Save) (stage : SaveStage)
  | removing (key : ObjectKey) (stage : RemoveStage)
  | reading (key : ObjectKey) (since : Nat) (stage : ReadStage)

/-- A request whose client went away is dropped: it lets go of the lock and takes no further
step, but what it has handed to the file threads or to the writer goes on. -/
structure Task where
  request : Request
  dropped : Bool

/-- A save that was committed: its object and its bytes. -/
structure Commit where
  object : StoredObject
  bytes : Bytes

/-- The two stores, the requests in progress, whether the process runs, and, for the record, the
committed saves and the names drawn so far. -/
structure Lifecycle (μ π : Type) where
  disk : Disk
  tables : ObjectTables μ π
  tasks : ExtTreeMap Nat Task
  running : Bool
  log : List Commit
  drawn : List String

/-- What comes from outside in one step of a request: whether its file operation or its
transaction goes well, the clock, and a fresh token. -/
structure Input where
  ok : Bool
  now : String
  token : String

/-- A request comes, takes a step, or is dropped (`started` tells whether a removal of a file has
begun by then); others change the outbox; the process stops, removes some left file at its next
start and stops again, or starts. -/
inductive LifecycleEvent (π : Type) where
  | save (id : Nat) (save : Save)
  | remove (id : Nat) (key : ObjectKey)
  | read (id : Nat) (key : ObjectKey)
  | advance (id : Nat) (input : Input)
  | drop (id : Nat) (started : Bool)
  | others (outbox : Outbox π)
  | crash
  | sweep (name : String)
  | recover

/-- The task holds the lock against everybody. -/
def Task.writing (task : Task) : Bool :=
  !task.dropped &&
    match task.request with
    | .saving _ (.locked _) => true
    | .saving _ (.submitted _) => true
    | .saving _ (.committed _ _) => true
    | .saving _ (.refused _) => true
    | .removing _ .locked => true
    | .removing _ .submitted => true
    | .removing _ (.committed _) => true
    | _ => false

/-- The task shares the lock with other readers. -/
def Task.reading (task : Task) : Bool :=
  !task.dropped &&
    match task.request with
    | .reading _ _ .locked => true
    | .reading _ _ (.found _) => true
    | .reading _ _ (.inspected _ _) => true
    | _ => false

variable {μ π : Type}

namespace Lifecycle

def start (tables : ObjectTables μ π) (disk : Disk) : Lifecycle μ π :=
  ⟨disk, tables, ∅, true, [], []⟩

/-- Nobody else holds the lock. -/
def free (state : Lifecycle μ π) : Bool :=
  state.tasks.toList.all fun entry => !entry.2.writing && !entry.2.reading

/-- Nobody holds the lock against readers. -/
def shareable (state : Lifecycle μ π) : Bool :=
  state.tasks.toList.all fun entry => !entry.2.writing

def setTask (state : Lifecycle μ π) (id : Nat) (request : Request) (dropped : Bool) :
    Lifecycle μ π :=
  { state with tasks := state.tasks.insert id ⟨request, dropped⟩ }

def endTask (state : Lifecycle μ π) (id : Nat) : Lifecycle μ π :=
  { state with tasks := state.tasks.erase id }

/-- The next stage of a request, which a dropped one does not come to. -/
def proceed (state : Lifecycle μ π) (id : Nat) (task : Task) (request : Request) :
    Lifecycle μ π :=
  if task.dropped then state.endTask id else state.setTask id request false

def writeTemporary (state : Lifecycle μ π) (save : Save) (bytes : Bytes) : Lifecycle μ π :=
  { state with
    disk.temporary := state.disk.temporary.insert save.temporaryName bytes }

def removeTemporary (state : Lifecycle μ π) (save : Save) : Lifecycle μ π :=
  { state with disk.temporary := state.disk.temporary.erase save.temporaryName }

def rename (state : Lifecycle μ π) (save : Save) : Lifecycle μ π :=
  { state with
    disk.blobs := state.disk.blobs.insert save.blobName
      ((state.disk.temporary[save.temporaryName]?).getD [])
    disk.temporary := state.disk.temporary.erase save.temporaryName }

def unlink (state : Lifecycle μ π) (name : String) : Lifecycle μ π :=
  { state with disk := state.disk.removeBlob name }

def fileFailed : PersistenceError := .io "failed"

def databaseFailed : PersistenceError := .sqlite "failed"

variable (codec : StorageCodec μ) (event : String → Json → π)

/-- The transaction of a save runs on the writer, whether or not its request is still there. -/
def commitSave (state : Lifecycle μ π) (id : Nat) (task : Task) (save : Save) (now : String)
    (input : Input) : Lifecycle μ π :=
  match (if input.ok then state.tables.saveObject codec event save now input.token
    else .error databaseFailed) with
  | .ok (tables, object, old) =>
    ({ state with tables, log := state.log ++ [⟨object, save.bytes⟩] } : Lifecycle μ π).proceed id
      task (.saving save (.committed object old))
  | .error error => state.proceed id task (.saving save (.refused error))

def advanceSave (state : Lifecycle μ π) (id : Nat) (task : Task) (save : Save) (input : Input) :
    SaveStage → Lifecycle μ π
  | .opening =>
    if input.ok && !state.disk.temporary.contains save.temporaryName then
      (state.writeTemporary save []).setTask id (.saving save .opened) task.dropped
    else state.proceed id task (.saving save (.broken fileFailed))
  | .opened =>
    if input.ok then
      (state.writeTemporary save save.bytes).setTask id (.saving save .written) task.dropped
    else state.proceed id task (.saving save (.broken fileFailed))
  | .written =>
    if input.ok then (state.rename save).setTask id (.saving save .renamed) task.dropped
    else state.proceed id task (.saving save (.broken fileFailed))
  | .renamed =>
    if input.ok then state.proceed id task (.saving save (.stored input.now))
    else state.proceed id task (.saving save (.broken fileFailed))
  | .stored now =>
    if state.free then state.proceed id task (.saving save (.locked now)) else state
  | .locked now => state.proceed id task (.saving save (.submitted now))
  | .submitted now => state.commitSave codec event id task save now input
  | .committed object old =>
    let state := match old.filter (· != save.blobName) with
      | some old => state.unlink old
      | none => state
    state.proceed id task (.saving save (.answered (.object (objectJson object))))
  | .refused error =>
    ({ state with disk.blobs := state.disk.blobs.erase save.blobName } : Lifecycle μ π).proceed id
      task (.saving save (.answered (persistenceFailure error)))
  | .broken error =>
    (state.removeTemporary save).proceed id task
      (.saving save (.answered (persistenceFailure error)))
  | .answered _ => state

def advanceRemove (state : Lifecycle μ π) (id : Nat) (task : Task) (key : ObjectKey)
    (input : Input) : RemoveStage → Lifecycle μ π
  | .waiting => if state.free then state.proceed id task (.removing key .locked) else state
  | .locked => state.proceed id task (.removing key .submitted)
  | .submitted =>
    match (if input.ok then state.tables.deleteObject codec event key
      else .error databaseFailed) with
    | .ok (some (tables, blob)) =>
      ({ state with tables } : Lifecycle μ π).proceed id task (.removing key (.committed blob))
    | .ok none => state.proceed id task (.removing key (.answered .notFound))
    | .error error => state.proceed id task (.removing key (.answered (persistenceFailure error)))
  | .committed blob =>
    (state.unlink blob).proceed id task (.removing key (.answered .noContent))
  | .answered _ => state

def advanceRead (state : Lifecycle μ π) (id : Nat) (task : Task) (key : ObjectKey) (since : Nat) :
    ReadStage → Lifecycle μ π
  | .waiting =>
    if state.shareable then state.proceed id task (.reading key since .locked) else state
  | .locked =>
    match state.tables.persistentObject codec key with
    | .ok (some object) => state.proceed id task (.reading key since (.found object))
    | .ok none => state.proceed id task (.reading key since (.answered .notFound))
    | .error error =>
      state.proceed id task (.reading key since (.answered (persistenceFailure error)))
  | .found object =>
    match state.disk.inspectBlob object with
    | .ok name => state.proceed id task (.reading key since (.inspected object name))
    | .error error =>
      state.proceed id task (.reading key since (.answered (persistenceFailure error)))
  | .inspected object name =>
    match state.disk.readBlob codec object name with
    | .ok bytes =>
      state.proceed id task
        (.reading key since (.answered (mediaResponse { object with bytes := some bytes })))
    | .error error =>
      state.proceed id task (.reading key since (.answered (persistenceFailure error)))
  | .answered _ => state

def advance (state : Lifecycle μ π) (id : Nat) (input : Input) : Lifecycle μ π :=
  match state.tasks[id]? with
  | none => state
  | some task =>
    match task.request with
    | .saving save stage => state.advanceSave codec event id task save input stage
    | .removing key stage => state.advanceRemove codec event id task key input stage
    | .reading key since stage => state.advanceRead codec id task key since stage

/-- Whether something of the request goes on without it: its file operations, its transaction, or
a removal that has begun. -/
def Request.detached (started : Bool) : Request → Bool
  | .saving _ .opening => true
  | .saving _ .opened => true
  | .saving _ .written => true
  | .saving _ .renamed => true
  | .saving _ (.submitted _) => true
  | .saving _ (.committed _ _) => started
  | .saving _ (.refused _) => started
  | .saving _ (.broken _) => started
  | .removing _ .submitted => true
  | .removing _ (.committed _) => started
  | _ => false

def drop (state : Lifecycle μ π) (id : Nat) (started : Bool) : Lifecycle μ π :=
  match state.tasks[id]? with
  | none => state
  | some task =>
    if Request.detached started task.request then state.setTask id task.request true
    else state.endTask id

/-- A request under an id that is not in use. -/
def arrive (state : Lifecycle μ π) (id : Nat) (request : Request) : Lifecycle μ π :=
  if state.running && !state.tasks.contains id then state.setTask id request false else state

def crash (state : Lifecycle μ π) : Lifecycle μ π := { state with tasks := ∅, running := false }

/-- One removal of a start that does not come to its end. -/
def sweep (state : Lifecycle μ π) (name : String) : Lifecycle μ π :=
  if state.running || state.tables.referenced.contains name then state
  else { state with
    disk.blobs := state.disk.blobs.erase name
    disk.temporary := state.disk.temporary.erase name }

/-- A start that fails leaves the process stopped. -/
def recover (state : Lifecycle μ π) : Lifecycle μ π :=
  if state.running then state
  else
    match state.disk.recoverBlobs state.tables.referenced with
    | .ok disk => { state with disk, running := true }
    | .error _ => state

def step (state : Lifecycle μ π) : LifecycleEvent π → Lifecycle μ π
  | .save id save =>
    ({ state with drawn := save.blobName :: save.temporaryName :: state.drawn } :
      Lifecycle μ π).arrive id (.saving save .opening)
  | .remove id key => state.arrive id (.removing key .waiting)
  | .read id key => state.arrive id (.reading key state.log.length .waiting)
  | .advance id input => state.advance codec event id input
  | .drop id started => state.drop id started
  | .others outbox => { state with tables := { state.tables with outbox } }
  | .crash => state.crash
  | .sweep name => state.sweep name
  | .recover => state.recover

/-- The blob of a save is a new identifier, and its temporary file has a new name. -/
def Fresh (state : Lifecycle μ π) : LifecycleEvent π → Prop
  | .save _ save =>
    canonicalUuid save.blobName = true ∧ save.blobName ∉ state.drawn ∧
      save.temporaryName ∉ state.drawn
  | _ => True

end Lifecycle

end FirebaseEmu.Storage
