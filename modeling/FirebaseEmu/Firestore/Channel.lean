import FirebaseEmu.Firestore.FormMessages
import FirebaseEmu.Firestore.WebChannel
import FirebaseEmu.Firestore.WebRequests
import FirebaseEmu.Lib.Numbered

namespace FirebaseEmu.Firestore.Channel
open Lib Std Web

inductive Rpc where
  | listen
  | write
  deriving DecidableEq

/-- What an await of a handler finds: the store, whatever other requests have made of it, and the
time. -/
structure Moment (β : Type) where
  service : FirestoreService β
  now : Timestamp

structure Target where
  spec : Json
  documents : Documents

/-- A session of `firestore_web`, without the time at which it was used last. A message is kept as
what the source wraps together with its number. -/
structure Session extends Numbered Json where
  targets : ExtTreeMap Int32 Target
  received : List UInt64
  writeReady : Bool
  database : String

/-- How a handler, or a part of it, ends. It is dropped when its client hangs up while it awaits. -/
inductive Outcome (α : Type) where
  | done (value : α)
  | failed (status : Status)
  | dropped
  | panicked

/-- How a part of a handler ends, and what it leaves. The moments are those of the awaits to
come; at the end of them the handler is dropped. -/
structure Result (α β : Type) where
  outcome : Outcome α
  session : Session
  moments : List (Moment β)

structure ChannelConfig (β : Type) where
  codec : DocumentCodec β
  formats : TextFormats
  readers : TextReaders
  fromStr : String → Option Json
  /-- Whether the build checks overflows. -/
  checks : Bool
  sid : String

namespace Session

def start (database : String) : Session := ⟨.empty, ∅, [], false, database⟩

def push (session : Session) (value : Json) : Session :=
  { session with toNumbered := session.toNumbered.push value }

/-- The messages behind an acknowledgement, when there are any. -/
def queued (session : Session) (aid : Nat) : Option (List (Nat × Json)) × Session :=
  let session := { session with toNumbered := session.toNumbered.trim aid }
  (if session.messages.isEmpty then none else some session.messages, session)

end Session

def targetChange (targetChangeType : String) (targetIds : List Int64) (readTime : Option Json) :
    Json :=
  .object [("targetChange", .object ((readTime.map fun time => ("readTime", time)).toList ++
    [("targetChangeType", .string targetChangeType),
      ("targetIds", .array (targetIds.map i64Json))]))]

def documentChange (id : Int32) (document : Json) : Json :=
  .object [("documentChange", .object [("document", document), ("removedTargetIds", .array []),
    ("targetIds", .array [i64Json id.toInt64])])]

def documentRemove (id : Int32) (readTime : Json) (name : String) : Json :=
  .object [("documentRemove", .object [("document", .string name), ("readTime", readTime),
    ("removedTargetIds", .array [i64Json id.toInt64])])]

variable {β : Type} (config : ChannelConfig β)

/-- What the source makes of the JSON of a target. -/
def specOf (spec : Json) : Spec :=
  match spec.find? "query" with
  | some query => .query (jsonString query "parent")
    (queryProto config.readers (query.get "structuredQuery"))
  | none => .documents ((jsonArray (spec.get "documents") "documents").filterMap Json.asStr)

/-- `target_docs`: a query that is not understood fails before there is an await. -/
def readTarget (spec : Json) (moments : List (Moment β)) :
    Option (Except Status (List Document) × List (Moment β)) :=
  match specOf config spec with
  | .query _ (.error status) => some (.error status, moments)
  | spec =>
    match moments with
    | [] => none
    | moment :: moments => some (Web.targetDocs config.codec moment.service spec, moments)

/-- The messages of `refresh` for a target. -/
def targetChanges (readTime : Json) (id : Int32) (previous : Documents)
    (documents : List Document) : List Json :=
  ((documents.filter fun document =>
      changed config.formats previous[document.name]? document).map fun document =>
    documentChange id (documentJson config.formats document)) ++
  (previous.keys.filter fun name => !(byName documents).contains name).map
    (documentRemove id readTime)

/-- The part of `refresh` for a target, once its documents are read. -/
def refreshTarget (readTime : Json) (initial : Bool) (id : Int32) (target : Target)
    (documents : List Document) (session : Session) : Session :=
  let stored := { session with
    targets := session.targets.insert id { target with documents := byName documents } }
  let told := (targetChanges config readTime id target.documents documents).foldl Session.push
    stored
  if initial then told.push (targetChange "CURRENT" [id.toInt64] (some readTime)) else told

/-- The loop of `refresh`. -/
def refreshTargets (readTime : Json) (initial : Bool) :
    List Int32 → Bool → Session → List (Moment β) → Result Bool β
  | [], changed, session, moments => ⟨.done changed, session, moments⟩
  | id :: ids, changed, session, moments =>
    match session.targets[id]? with
    | none => ⟨.panicked, session, moments⟩
    | some target =>
      match readTarget config target.spec moments with
      | none => ⟨.dropped, session, []⟩
      | some (.error status, moments) => ⟨.failed status, session, moments⟩
      | some (.ok documents, moments) =>
        let messages := targetChanges config readTime id target.documents documents
        refreshTargets readTime initial ids (changed || !messages.isEmpty)
          (refreshTarget config readTime initial id target documents session) moments

/-- The targets that `refresh` goes through: a new one, or all. -/
def Session.refreshed (session : Session) : Option Int32 → List Int32
  | some id => [id]
  | none => session.targets.keys

def refresh (session : Session) (initial : Option Int32) (moments : List (Moment β)) :
    Result Unit β :=
  -- the time is read before the first await, and told only when there was one
  let readTime := timeJson config.formats (moments.head?.map Moment.now)
  let result := refreshTargets config readTime initial.isSome (session.refreshed initial) false
    session moments
  match result.outcome with
  | .done changed =>
    let session :=
      if changed || initial.isSome then
        result.session.push (targetChange "NO_CHANGE" [] (some readTime))
      else result.session
    ⟨.done (), session, result.moments⟩
  | .failed status => ⟨.failed status, result.session, result.moments⟩
  | .dropped => ⟨.dropped, result.session, result.moments⟩
  | .panicked => ⟨.panicked, result.session, result.moments⟩

def processWrite (session : Session) (message : Json) (moments : List (Moment β)) :
    Result Unit β :=
  if !session.writeReady then
    let session := { session with
      writeReady := true
      database := (message.get "database").asStr.getD session.database }
    ⟨.done (), session.push (.object [("streamId", .string config.sid),
      ("streamToken", .string (config.formats.base64 (textBytes "0")))]), moments⟩
  else
    match (jsonArray message "writes").mapM (writeProto config.readers) with
    | .error status => ⟨.failed status, session, moments⟩
    | .ok writes =>
      match moments with
      | [] => ⟨.dropped, session, []⟩
      | moment :: moments =>
        match (commit config.codec moment.service ⟨session.database, writes, []⟩ moment.now).1 with
        | .error status => ⟨.failed status, session, moments⟩
        | .ok response =>
          let token := config.formats.base64 (textBytes (toString (session.seq + 1)))
          let result := insertKey "streamToken" (.string token)
            (insertKey "streamId" (.string config.sid) (commitJson config.formats response))
          ⟨.done (), session.push (.object result), moments⟩

def addTarget (session : Session) (target : Json) (moments : List (Moment β)) : Result Unit β :=
  match (target.get "targetId").asI64 with
  | none => ⟨.failed (invalidArgument "targetId required"), session, moments⟩
  | some targetId =>
    -- `as i32`
    let id := targetId.toInt32
    let session := { session with targets := session.targets.insert id ⟨target, ∅⟩ }
    refresh config (session.push (targetChange "ADD" [id.toInt64] none)) (some id) moments

def process (rpc : Rpc) (session : Session) (message : Json) (moments : List (Moment β)) :
    Result Unit β :=
  match rpc with
  | .write => processWrite config session message moments
  | .listen =>
    match message.find? "addTarget" with
    | some target => addTarget config session target moments
    | none =>
      match (message.get "removeTarget").asI64 with
      | some id =>
        let session := { session with targets := session.targets.erase id.toInt32 }
        ⟨.done (), session.push (targetChange "REMOVE" [id] none), moments⟩
      | none => ⟨.done (), session, moments⟩

/-- The messages of a batch, and the ids of those that were processed. -/
structure Posted where
  outcome : Outcome Unit
  session : Session
  processed : List UInt64

def postMessages (rpc : Rpc) : List (UInt64 × Json) → Session → List (Moment β) → Posted
  | [], session, _ => ⟨.done (), session, []⟩
  | (id, message) :: rest, session, moments =>
    if id ∈ session.received then postMessages rpc rest session moments
    else
      let result := process config rpc { session with received := id :: session.received } message
        moments
      match result.outcome with
      | .done () =>
        let posted := postMessages rpc rest result.session result.moments
        { posted with processed := id :: posted.processed }
      | .failed status =>
        let posted := postMessages rpc rest (result.session.push (errorJson status)) result.moments
        { posted with processed := id :: posted.processed }
      | .dropped => ⟨.dropped, result.session, [id]⟩
      | .panicked => ⟨.panicked, result.session, [id]⟩

inductive Answer where
  | opened (sid : String)
  | acknowledged (seq : Nat)
  | messages (messages : List (Nat × Json))
  | waiting
  | refused (status : Status)
  | dropped
  | panicked

/-- A POST on a session, the first one when it is the handshake. -/
def post (handshake : Bool) (rpc : Rpc) (session : Session) (body : Bytes)
    (moments : List (Moment β)) : Answer × Session × List UInt64 :=
  match formMessages config.fromStr config.checks body with
  | none => (.panicked, session, [])
  | some (.error status) => (.refused status, session, [])
  | some (.ok messages) =>
    let posted := postMessages config rpc messages session moments
    match posted.outcome with
    | .done () =>
      (if handshake then .opened config.sid else .acknowledged posted.session.seq,
        posted.session, posted.processed)
    | .failed status => (.refused status, posted.session, posted.processed)
    | .dropped => (.dropped, posted.session, posted.processed)
    | .panicked => (.panicked, posted.session, posted.processed)

/-- The acknowledgement of a poll. -/
def aidOf (aid : Option String) : Nat := ((aid.bind parseU64).map UInt64.toNat).getD 0

def answerQueued (session : Session) (aid : Nat) : Answer × Session :=
  match session.queued aid with
  | (some messages, session) => (.messages messages, session)
  | (none, session) => (.waiting, session)

/-- A round of the loop of a poll: it answers, or it waits for the next round or its end. -/
def poll (rpc : Rpc) (session : Session) (aid : Nat) (moments : List (Moment β)) :
    Answer × Session :=
  match rpc with
  | .write => answerQueued session aid
  | .listen =>
    let result := refresh config session none moments
    match result.outcome with
    | .done () => answerQueued result.session aid
    | .failed status => (.refused status, result.session)
    | .dropped => (.dropped, result.session)
    | .panicked => (.panicked, result.session)

/-- The end of the wait of a poll. -/
def timeout (session : Session) (aid : Nat) : Answer × Session :=
  match (session.push (.string "noop")).queued aid with
  | (some messages, session) => (.messages messages, session)
  | (none, session) => (.panicked, session)

end FirebaseEmu.Firestore.Channel
