import FirebaseEmu.Firestore.Sample
import FirebaseEmu.Functions.Contents
import FirebaseEmu.Functions.Reach

namespace FirebaseEmu.Functions.Dispatch
open Lib Std
open Adapter (Function Invocation)
open Firestore (Document DocumentCodec FirestoreOutboxPayload TextFormats documentJson fieldsEqual)

/-- `serde_json` on the payloads of the outbox; `β` stands for the base64 text of a document. -/
structure PayloadFormat (β π : Type) where
  document : FirestoreOutboxPayload β → π
  object : String → Json → π
  readDocument : π → Except String (FirestoreOutboxPayload β)
  readObject : π → Except String (String × Json)
  document_read : ∀ payload, readDocument (document payload) = .ok payload
  object_read : ∀ kind value, readObject (object kind value) = .ok (kind, value)

/-- What a transaction changes: a document, or an object of a bucket. -/
inductive Mutation where
  | document (before after : Option Document)
  | object (kind : String) (object : Json)

/-- The functions runtime, with the libraries it uses and the processes it talks to. -/
structure Emulator (β π η : Type) where
  payloads : PayloadFormat β π
  codec : DocumentCodec β
  formats : TextFormats
  cluster : Cluster η
  runtime : Runtime

/-- A dispatch of an event: its requests, and its result unless the process stopped before. -/
structure Dispatched (η : Type) where
  id : Nat
  attempts : List (Attempt η)
  result : Option (Option String)

/-- The outbox under the loop, the mutations whose events it got, and all dispatches. -/
structure Execution (π η : Type) where
  delivery : Delivery π
  committed : List Mutation
  dispatches : List (Dispatched η)

inductive ExecutionEvent where
  | commit (eventsEnabled : Bool) (mutations : List Mutation)
  | recover (ok : Bool)
  | claim (now : Nat)
  | claimFails
  | dispatch (timestamp : String)
  | transition (now : Nat) (outcome : Functions.Outcome)
  | crash (timestamp : String) (sent : Nat)

variable {β π η : Type}

/-- A document that keeps its fields has no event. -/
def Mutation.changes : Mutation → Bool
  | .document before after => !fieldsEqual before after
  | .object _ _ => true

namespace Emulator
variable (emulator : Emulator β π η)

def documentOutboxRecord (before after : Option Document) : List (OutboxRecord π) :=
  if fieldsEqual before after then []
  else
    [⟨"firestore", emulator.payloads.document
      ⟨before.map emulator.codec.encode, after.map emulator.codec.encode⟩⟩]

def storageOutboxRecord (kind : String) (object : Json) : OutboxRecord π :=
  ⟨"storage", emulator.payloads.object kind object⟩

def records : Mutation → List (OutboxRecord π)
  | .document before after => emulator.documentOutboxRecord before after
  | .object kind object => [emulator.storageOutboxRecord kind object]

def decodeDurable (row : DurableRow π) : Except String QueuedEvent := do
  if row.source = "firestore" then
    let payload ← emulator.payloads.readDocument row.payload
    let before ← payload.before.mapM emulator.codec.decode
    let after ← payload.after.mapM emulator.codec.decode
    return ⟨.firestore before after, row.id⟩
  else if row.source = "storage" then
    let (kind, object) ← emulator.payloads.readObject row.payload
    if kind = "finalize" ∨ kind = "delete" then return ⟨.storage kind object, row.id⟩
    else .error s!"unsupported durable Storage event kind: {kind}"
  else .error s!"unsupported durable event source: {row.source}"

end Emulator

namespace Execution

def start : Execution π η := ⟨.start, [], []⟩

/-- All requests so far. -/
def history (execution : Execution π η) : List (Attempt η) :=
  execution.dispatches.flatMap Dispatched.attempts

variable (emulator : Emulator β π η)

/-- A transaction of a writer, unless the outbox is full. -/
def commit (execution : Execution π η) (eventsEnabled : Bool) (mutations : List Mutation) :
    Execution π η :=
  let records := mutations.flatMap emulator.records
  { execution with
    delivery := execution.delivery.insert eventsEnabled records
    committed := execution.committed ++
      match execution.delivery.outbox.insertOutbox eventsEnabled records with
      | .ok _ => if eventsEnabled then mutations.filter Mutation.changes else []
      | .error _ => [] }

/-- The loop decodes the event it has claimed and sends its requests; `none` is a panic. -/
def dispatch (execution : Execution π η) (timestamp : String) : Option (Execution π η) :=
  match execution.delivery.worker with
  | .dispatching row =>
    match emulator.decodeDurable row with
    | .error error => some { execution with delivery := execution.delivery.finish (some error) }
    | .ok event => do
      let (history, error) ← Dispatch.dispatch emulator.formats emulator.cluster.send
        emulator.runtime timestamp execution.history event
      return { execution with
        delivery := execution.delivery.finish error
        dispatches := execution.dispatches ++
          [⟨row.id, history.drop execution.history.length, some error⟩] }
  | _ => some execution

/-- The requests that were out when the process stopped. -/
def interrupted (execution : Execution π η) (timestamp : String) (sent : Nat) :
    List (Dispatched η) :=
  match execution.delivery.worker with
  | .dispatching row =>
    match emulator.decodeDurable row with
    | .error _ => []
    | .ok event =>
      match posts emulator.formats emulator.runtime timestamp event with
      | some (.ok posts) =>
        let (history, _) := postAll emulator.cluster.send execution.history (posts.take sent)
        [⟨row.id, history.drop execution.history.length, none⟩]
      | _ => []
  | _ => []

def step (execution : Execution π η) : ExecutionEvent → Option (Execution π η)
  | .commit eventsEnabled mutations => some (execution.commit emulator eventsEnabled mutations)
  | .recover ok => some { execution with delivery := execution.delivery.step (.recover ok) }
  | .claim now => some { execution with delivery := execution.delivery.step (.claim now) }
  | .claimFails => some execution
  | .dispatch timestamp => execution.dispatch emulator timestamp
  | .transition now outcome =>
    some { execution with delivery := execution.delivery.step (.transition now outcome) }
  | .crash timestamp sent =>
    some { execution with
      delivery := execution.delivery.step .crash
      dispatches := execution.dispatches ++ execution.interrupted emulator timestamp sent }

def run (events : List ExecutionEvent) : Option (Execution π η) :=
  events.foldlM (step emulator) start

end Execution

/-- The function is told of changes of one kind to the objects of a bucket. -/
structure WatchesObject (f : Function) (kind bucket : String) : Prop where
  typed : eventType f = some ("google.storage.object." ++ kind)
  bucket : ∀ configured, (resource f).bind (secondPart "/buckets/") = some configured →
    configured = "" ∨ configured = "\x7bbucket\x7d" ∨ configured = bucket

/-- The mutation is one of those that the function asks for. -/
inductive Mutation.Concerns (project : String) (f : Function) : Mutation → Prop
  | document {before after : Option Document} {document : Document} {path type pattern : String}
    (hdocument : (after <|> before) = some document)
    (hname : document.name = s!"projects/{project}/databases/(default)/documents/" ++ path)
    (hw : Watches f (eventKind before.isSome after.isSome) path type pattern) :
    Concerns project f (.document before after)
  | object {kind : String} {object : Json}
    (hw : WatchesObject f kind ((object.get "bucket").asStr.getD "")) :
    Concerns project f (.object kind object)

/-- What the handlers get of a mutation. -/
def Mutation.data (formats : TextFormats) : Mutation → Json
  | .document before after => firestoreData formats before after
  | .object _ value => value

/-- The mutation as an event of the queue. -/
def Mutation.source : Mutation → EventSource
  | .document before after => .firestore before after
  | .object kind value => .storage kind value

/-- The event kinds that Storage has. -/
def Mutation.Known : Mutation → Prop
  | .document before after => (after <|> before).isSome = true
  | .object kind _ => kind = "finalize" ∨ kind = "delete"

section Posts
variable (formats : TextFormats) (runtime : Runtime)

/-- A request tells a function of the mutation with that id. -/
structure Post.Tells (post : Post) (mutation : Mutation) (id : Nat) (worker : Worker)
    (f : Function) : Prop where
  worker : post.worker = worker
  named : post.function = f.name
  data : post.data = mutation.data formats
  context : ∃ timestamp type name service params, post.context =
    Dispatch.context (.string (eventId id)) timestamp (.string type) name service params

/-- The requests of a mutation: one for each function that asks for it. -/
structure Asks (mutation : Mutation) (id : Nat) (posts : List Post) : Prop where
  once : (posts.map Post.function).Sublist (runtime.workers.flatMap Worker.names)
  told : ∀ post ∈ posts, ∃ worker f, (worker, f) ∈ runtime.pairs ∧
    mutation.Concerns runtime.project f ∧ post.Tells formats mutation id worker f
  asked : ∀ worker f, (worker, f) ∈ runtime.pairs → mutation.Concerns runtime.project f →
    ∃ post ∈ posts, post.Tells formats mutation id worker f

theorem storagePost_eq (id : Nat) (kind : String) (object : Json) (worker : Worker)
    (f : Function) :
    (WatchesObject f kind ((object.get "bucket").asStr.getD "") ∧
      ∃ post, storagePost id kind object worker f = some post ∧
        post.Tells formats (.object kind object) id worker f) ∨
    ¬ WatchesObject f kind ((object.get "bucket").asStr.getD "") ∧
      storagePost id kind object worker f = none := by
  unfold storagePost
  dsimp only
  by_cases htype : eventType f = some ("google.storage.object." ++ kind)
  · rw [if_neg (not_not_intro htype)]
    have hiff : (∀ configured, (resource f).bind (secondPart "/buckets/") = some configured →
        configured = "" ∨ configured = "\x7bbucket\x7d" ∨
          configured = (object.get "bucket").asStr.getD "") ↔
        ¬ (((resource f).bind (secondPart "/buckets/")).getD "" ≠ "" ∧
          ((resource f).bind (secondPart "/buckets/")).getD "" ≠ "\x7bbucket\x7d" ∧
          ((resource f).bind (secondPart "/buckets/")).getD "" ≠
            (object.get "bucket").asStr.getD "") := by
      cases (resource f).bind (secondPart "/buckets/") with
      | none => simp
      | some configured =>
        simp only [Option.some.injEq, forall_eq', Option.getD_some]
        tauto
    by_cases hbucket : ∀ configured, (resource f).bind (secondPart "/buckets/") =
        some configured → configured = "" ∨ configured = "\x7bbucket\x7d" ∨
          configured = (object.get "bucket").asStr.getD ""
    · rw [if_neg (hiff.mp hbucket)]
      exact .inl ⟨⟨htype, hbucket⟩, _, rfl, rfl, rfl, rfl, _, _, _, _, _, rfl⟩
    · rw [if_pos (not_not.mp fun h => hbucket (hiff.mpr h))]
      exact .inr ⟨fun hw => hbucket hw.bucket, rfl⟩
  · rw [if_pos htype]
    exact .inr ⟨fun hw => htype hw.typed, rfl⟩

theorem collect_asks (id : Nat) (kind : String) (object : Json) :
    Asks formats runtime (.object kind object) id
      (runtime.collect (storagePost id kind object)) := by
  constructor
  · rw [← map_name_pairs]
    apply map_filterMap_sublist
    intro pair post hp
    rcases storagePost_eq formats id kind object pair.1 pair.2 with ⟨-, _, h, ht⟩ | ⟨-, h⟩
    · rw [hp] at h
      obtain rfl := Option.some.inj h
      exact ht.named
    · rw [hp] at h
      cases h
  · intro post hm
    obtain ⟨⟨worker, f⟩, hpair, hp⟩ := List.mem_filterMap.mp hm
    rcases storagePost_eq formats id kind object worker f with ⟨hw, _, h, ht⟩ | ⟨-, h⟩
    · rw [hp] at h
      obtain rfl := Option.some.inj h
      exact ⟨worker, f, hpair, .object hw, ht⟩
    · rw [hp] at h
      cases h
  · intro worker f hpair hc
    cases hc with
    | object hw =>
      rcases storagePost_eq formats id kind object worker f with ⟨-, post, h, ht⟩ | ⟨hno, -⟩
      · exact ⟨post, List.mem_filterMap.mpr ⟨(worker, f), hpair, h⟩, ht⟩
      · exact absurd hw hno

theorem firestorePosts_asks (id : Nat) {before after : Option Document} {document : Document}
    (hdocument : (after <|> before) = some document) :
    ∃ posts, firestorePosts formats runtime id before after = some posts ∧
      Asks formats runtime (.document before after) id posts := by
  by_cases hname : ∃ path, document.name =
      s!"projects/{runtime.project}/databases/(default)/documents/" ++ path
  · obtain ⟨path, hpath⟩ := hname
    obtain ⟨posts, hposts, honce, hmem⟩ := firestorePosts_eq formats runtime id hdocument hpath
    have htells : ∀ worker f type pattern,
        (watcherPost formats id before after document path worker f type pattern).Tells formats
          (.document before after) id worker f :=
      fun _ _ _ _ => ⟨rfl, rfl, rfl, _, _, _, _, _, rfl⟩
    refine ⟨posts, hposts, honce, ?_, ?_⟩
    · intro post hm
      obtain ⟨worker, f, type, pattern, hpair, hw, rfl⟩ := (hmem post).mp hm
      exact ⟨worker, f, hpair, .document hdocument hpath hw, htells worker f type pattern⟩
    · intro worker f hpair hc
      cases hc with
      | document hdocument' hname' hw =>
        rename_i document' path' type pattern
        obtain rfl := Option.some.inj (hdocument.symm.trans hdocument')
        obtain rfl := String.append_right_inj _ |>.mp (hpath.symm.trans hname')
        exact ⟨_, (hmem _).mpr ⟨worker, f, type, pattern, hpair, hw, rfl⟩,
          htells worker f type pattern⟩
  · refine ⟨[], ?_, ⟨List.nil_sublist _, by simp, ?_⟩⟩
    · unfold firestorePosts
      have hnone : stripPrefix document.name
          s!"projects/{runtime.project}/databases/(default)/documents/" = none := by
        rw [Option.eq_none_iff_forall_ne_some]
        exact fun path hpath => hname ⟨path, stripPrefix_eq_some.mp hpath⟩
      rw [hdocument, Option.bind_eq_bind, Option.bind_some, hnone]
      rfl
    · intro worker f _ hc
      cases hc with
      | document hdocument' hname' hw =>
        obtain rfl := Option.some.inj (hdocument.symm.trans hdocument')
        exact absurd ⟨_, hname'⟩ hname

theorem posts_asks (timestamp : String) {mutation : Mutation} (hk : mutation.Known) (id : Nat) :
    ∃ requests, posts formats runtime timestamp ⟨mutation.source, id⟩ = some (.ok requests) ∧
      Asks formats runtime mutation id requests := by
  cases mutation with
  | document before after =>
    obtain ⟨document, hdocument⟩ := Option.isSome_iff_exists.mp hk
    obtain ⟨requests, hrequests, hasks⟩ := firestorePosts_asks formats runtime id hdocument
    exact ⟨requests, congrArg (Option.map Except.ok) hrequests, hasks⟩
  | object kind object => exact ⟨_, rfl, collect_asks formats runtime id kind object⟩

end Posts

/-- The handler of the function is called for the mutation with that id. -/
structure Invoked (emulator : Emulator β π η) (mutation : Mutation) (id : Nat) (worker : Worker)
    (f : Function) (call : Invocation η) : Prop where
  handler : ∃ item, Adapter.lookup (emulator.cluster.registry worker.base) f.name = some item ∧
    item.trigger = f.trigger ∧ call.handler = item.fn
  data : call.data = mutation.data emulator.formats
  eventId : call.context.get "eventId" = .string (Dispatch.eventId id)

/-- A dispatch sends the requests of its mutation in turn, and all of them unless the process
stops. -/
structure Dispatched.Of (emulator : Emulator β π η) (mutation : Mutation)
    (dispatched : Dispatched η) (requests : List Post) : Prop where
  asks : Asks emulator.formats emulator.runtime mutation dispatched.id requests
  sent : dispatched.attempts.map Attempt.post <+: requests
  made : ∀ attempt ∈ dispatched.attempts,
    ∃ before, attempt = emulator.cluster.attempt before attempt.post
  all : ∀ error, dispatched.result = some error → dispatched.attempts.map Attempt.post = requests ∧
    (error = none ↔ ∀ attempt ∈ dispatched.attempts, attempt.answer.succeeds = true)

/-- The text of an event in the outbox is that of the mutation with its id. -/
def Emulator.Recorded (emulator : Emulator β π η) (committed : List Mutation) (id : Nat)
    (source : String) (payload : π) : Prop :=
  0 < id ∧ ∃ mutation, committed[id - 1]? = some mutation ∧
    emulator.records mutation = [⟨source, payload⟩]

/-- The invariant of the outbox, the mutations and the dispatches. -/
structure Execution.Sound (emulator : Emulator β π η) (execution : Execution π η) : Prop where
  delivery : execution.delivery.Sound
  next : execution.delivery.outbox.nextId = execution.committed.length + 1
  carries : execution.delivery.Carries (emulator.Recorded execution.committed)
  asked : ∀ dispatched ∈ execution.dispatches, ∃ mutation requests,
    execution.committed[dispatched.id - 1]? = some mutation ∧
      dispatched.Of emulator mutation requests
  acknowledging : ∀ row tries, execution.delivery.worker = .acknowledging row tries →
    ∃ dispatched ∈ execution.dispatches, dispatched.id = row.id ∧ dispatched.result = some none
  delivered : ∀ id, .delivered id ∈ execution.delivery.log →
    ∃ dispatched ∈ execution.dispatches, dispatched.id = id ∧ dispatched.result = some none

section Codec
variable (emulator : Emulator β π η)

theorem decodeDocuments (document : Option Document) :
    (document.map emulator.codec.encode).mapM emulator.codec.decode = .ok document := by
  cases document with
  | none => rfl
  | some document =>
    simp [emulator.codec.decode_encode, Functor.map, Except.map]

theorem records_length (mutation : Mutation) :
    (emulator.records mutation).length = if mutation.changes then 1 else 0 := by
  cases mutation with
  | document before after =>
    cases he : fieldsEqual before after <;>
      simp [Emulator.records, Emulator.documentOutboxRecord, Mutation.changes, he]
  | object kind object => rfl

/-- An event of the outbox is read back as its mutation, or fails for a kind that Storage does
not have. -/
theorem decodeDurable_records {mutation : Mutation} {row : DurableRow π}
    (h : emulator.records mutation = [⟨row.source, row.payload⟩]) :
    (mutation.Known ∧ emulator.decodeDurable row = .ok ⟨mutation.source, row.id⟩) ∨
      ∃ error, emulator.decodeDurable row = .error error := by
  cases mutation with
  | document before after =>
    left
    change emulator.documentOutboxRecord before after = _ at h
    unfold Emulator.documentOutboxRecord at h
    cases he : fieldsEqual before after with
    | true =>
      rw [he] at h
      cases h
    | false =>
      rw [he] at h
      injection h with hrecord
      injection hrecord with hsource hpayload
      refine ⟨?_, ?_⟩
      · cases after with
        | some after => rfl
        | none =>
          cases before with
          | some before => rfl
          | none => cases he
      · unfold Emulator.decodeDurable
        rw [← hsource, ← hpayload, if_pos rfl, emulator.payloads.document_read]
        simp only [bind, Except.bind, decodeDocuments]
        rfl
  | object kind value =>
    injection h with hrecord
    injection hrecord with hsource hpayload
    unfold Emulator.decodeDurable
    rw [← hsource, ← hpayload, if_neg (by decide), if_pos rfl, emulator.payloads.object_read]
    by_cases hk : kind = "finalize" ∨ kind = "delete"
    · exact .inl ⟨hk, by simp only [bind, Except.bind, if_pos hk]; rfl⟩
    · exact .inr ⟨_, by simp only [bind, Except.bind, if_neg hk]; rfl⟩

/-- The records of a transaction are those of its mutations that change something, in order. -/
theorem records_getElem? (mutations : List Mutation) (i : Nat) (record : OutboxRecord π)
    (h : (mutations.flatMap emulator.records)[i]? = some record) :
    ∃ mutation, (mutations.filter Mutation.changes)[i]? = some mutation ∧
      emulator.records mutation = [record] := by
  induction mutations generalizing i with
  | nil => cases h
  | cons mutation rest ih =>
    have hlen := records_length emulator mutation
    rw [List.flatMap_cons] at h
    cases hc : mutation.changes with
    | false =>
      rw [hc, if_neg Bool.false_ne_true, List.length_eq_zero_iff] at hlen
      rw [hlen, List.nil_append] at h
      obtain ⟨found, hfound, hrecords⟩ := ih i h
      exact ⟨found, by rwa [List.filter_cons_of_neg (by simp [hc])], hrecords⟩
    | true =>
      rw [hc, if_pos rfl, List.length_eq_one_iff] at hlen
      obtain ⟨first, hfirst⟩ := hlen
      rw [hfirst, List.singleton_append] at h
      rw [List.filter_cons_of_pos hc]
      cases i with
      | zero => exact ⟨mutation, rfl, by rw [hfirst, Option.some.inj h]⟩
      | succ i => exact ih i h

theorem length_records (mutations : List Mutation) :
    (mutations.flatMap emulator.records).length = (mutations.filter Mutation.changes).length := by
  induction mutations with
  | nil => rfl
  | cons mutation rest ih =>
    rw [List.flatMap_cons, List.length_append, records_length, ih]
    cases hc : mutation.changes with
    | false =>
      rw [List.filter_cons_of_neg (by simp [hc])]
      exact Nat.zero_add _
    | true =>
      rw [List.filter_cons_of_pos hc, List.length_cons]
      exact Nat.add_comm _ _

end Codec

namespace Execution
variable {emulator : Emulator β π η} {execution : Execution π η}

theorem recorded_append {committed : List Mutation} {id : Nat} {source : String} {payload : π}
    (more : List Mutation) (h : emulator.Recorded committed id source payload) :
    emulator.Recorded (committed ++ more) id source payload := by
  obtain ⟨hpos, mutation, hm, hrecords⟩ := h
  refine ⟨hpos, mutation, ?_, hrecords⟩
  rw [List.getElem?_append_left (List.getElem?_eq_some_iff.mp hm).1]
  exact hm

theorem start_sound (emulator : Emulator β π η) : (start : Execution π η).Sound emulator where
  delivery := Delivery.start_sound
  next := rfl
  carries := ⟨fun id row hr => (by simp [start, Delivery.start, Outbox.empty] at hr),
    fun row hr => (by cases hr)⟩
  asked dispatched hm := by cases hm
  acknowledging row tries hw := by cases hw
  delivered id hm := by cases hm

/-- The outbox moves on, without a commit or a dispatch. -/
theorem Sound.moves (h : execution.Sound emulator) (event : OutboxEvent π)
    (he : ∀ eventsEnabled records, event ≠ .insert eventsEnabled records)
    (hmoves : execution.delivery.Moves (execution.delivery.step event)) :
    ({ execution with delivery := execution.delivery.step event } : Execution π η).Sound
      emulator where
  delivery := h.delivery.step event
  next := hmoves.next.trans h.next
  carries := h.carries.step he
  asked := h.asked
  acknowledging row tries hw := by
    obtain ⟨tries', hw'⟩ := hmoves.worker row tries hw
    exact h.acknowledging row tries' hw'
  delivered id hm := by
    rcases hmoves.log id hm with hm | ⟨row, tries, hw, rfl⟩
    · exact h.delivered id hm
    · exact h.acknowledging row tries hw

/-- More mutations may be committed than the invariant has to know. -/
theorem Sound.grow (h : execution.Sound emulator) {delivery : Delivery π} {more : List Mutation}
    (hdelivery : delivery.Sound)
    (hnext : delivery.outbox.nextId = execution.delivery.outbox.nextId + more.length)
    (hcarries : delivery.Carries (emulator.Recorded (execution.committed ++ more)))
    (hworker : delivery.worker = execution.delivery.worker)
    (hlog : delivery.log = execution.delivery.log) :
    ({ execution with delivery, committed := execution.committed ++ more } :
      Execution π η).Sound emulator where
  delivery := hdelivery
  next := by
    rw [hnext, h.next, List.length_append]
    exact Nat.add_right_comm _ _ _
  carries := hcarries
  asked dispatched hm := by
    obtain ⟨mutation, requests, hmutation, hof⟩ := h.asked dispatched hm
    refine ⟨mutation, requests, ?_, hof⟩
    rw [List.getElem?_append_left (List.getElem?_eq_some_iff.mp hmutation).1]
    exact hmutation
  acknowledging row tries hw := h.acknowledging row tries (hworker ▸ hw)
  delivered id hm := h.delivered id (hlog ▸ hm)

theorem Sound.commit (h : execution.Sound emulator) (eventsEnabled : Bool)
    (mutations : List Mutation) : (execution.commit emulator eventsEnabled mutations).Sound emulator := by
  have hsound := h.delivery.insert eventsEnabled (mutations.flatMap emulator.records)
  unfold Execution.commit Delivery.insert
  cases hinsert : execution.delivery.outbox.insertOutbox eventsEnabled
      (mutations.flatMap emulator.records) with
  | error count => simpa only [hinsert, List.append_nil] using h
  | ok outbox =>
    simp only [hinsert]
    cases eventsEnabled with
    | false =>
      cases hinsert
      simpa only [Bool.false_eq_true, if_false, List.append_nil] using h
    | true =>
      have hcarries := (h.carries.mono fun id source payload hr =>
        recorded_append (mutations.filter Mutation.changes) hr).insert true
          (mutations.flatMap emulator.records) fun i record hrecord => by
            obtain ⟨mutation, hm, hrecords⟩ := records_getElem? emulator mutations i record hrecord
            have hlt := h.next
            refine ⟨by omega, mutation, ?_, hrecords⟩
            rw [h.next, List.getElem?_append_right (by omega),
              show execution.committed.length + 1 + i - 1 - execution.committed.length = i by omega]
            exact hm
      unfold Delivery.insert at hsound hcarries
      rw [hinsert] at hsound hcarries
      refine h.grow hsound ?_ hcarries rfl rfl
      unfold Outbox.insertOutbox at hinsert
      simp only [Bool.not_true, Bool.false_eq_true, if_false] at hinsert
      split at hinsert
      · cases hinsert
      · cases hinsert
        rw [if_pos rfl, ← length_records emulator]
        exact (Outbox.getElem?_insertRecords _ 0).2.1

/-- The loop hears of the dispatch of its event, which is on record. -/
theorem Sound.finish (h : execution.Sound emulator) {row : DurableRow π}
    (hw : execution.delivery.worker = .dispatching row) (error : Option String)
    (new : List (Dispatched η))
    (hnew : ∀ dispatched ∈ new, ∃ mutation requests,
      execution.committed[dispatched.id - 1]? = some mutation ∧
        dispatched.Of emulator mutation requests)
    (hdone : error = none →
      ∃ dispatched ∈ new, dispatched.id = row.id ∧ dispatched.result = some none) :
    ({ execution with
        delivery := execution.delivery.finish error
        dispatches := execution.dispatches ++ new } : Execution π η).Sound emulator := by
  have hfinish := Delivery.finish_dispatching hw error
  have hold : ∀ {id : Nat}, (∃ dispatched ∈ execution.dispatches, dispatched.id = id ∧
      dispatched.result = some none) → ∃ dispatched ∈ execution.dispatches ++ new,
        dispatched.id = id ∧ dispatched.result = some none := by
    rintro id ⟨dispatched, hm, hd⟩
    exact ⟨dispatched, List.mem_append_left _ hm, hd⟩
  constructor
  · exact h.delivery.finish error
  · change (execution.delivery.finish error).outbox.nextId = _
    rw [hfinish]
    exact h.next
  · change (execution.delivery.step (.finish error)).Carries _
    exact h.carries.step fun _ _ he => by cases he
  · intro dispatched hm
    rcases List.mem_append.mp hm with hm | hm
    · exact h.asked dispatched hm
    · exact hnew dispatched hm
  · intro row' tries hw'
    change (execution.delivery.finish error).worker = _ at hw'
    rw [hfinish] at hw'
    cases error with
    | none =>
      cases hw'
      obtain ⟨dispatched, hm, hd⟩ := hdone rfl
      exact ⟨dispatched, List.mem_append_right _ hm, hd⟩
    | some error => cases hw'
  · intro id hm
    change _ ∈ (execution.delivery.finish error).log at hm
    rw [hfinish] at hm
    rcases List.mem_append.mp hm with hm | hm
    · exact hold (h.delivered id hm)
    · cases List.mem_singleton.mp hm

/-- The event in hand is that of a mutation. Its requests are known, unless it cannot be read. -/
theorem Sound.held_event (h : execution.Sound emulator) {row : DurableRow π}
    (hw : execution.delivery.worker = .dispatching row) :
    ∃ mutation, execution.committed[row.id - 1]? = some mutation ∧
      ((∃ error, emulator.decodeDurable row = .error error) ∨
        emulator.decodeDurable row = .ok ⟨mutation.source, row.id⟩ ∧ ∀ timestamp,
          ∃ requests, posts emulator.formats emulator.runtime timestamp ⟨mutation.source, row.id⟩ =
            some (.ok requests) ∧ Asks emulator.formats emulator.runtime mutation row.id requests) := by
  obtain ⟨-, mutation, hmutation, hrecords⟩ := h.carries.held row (by rw [Delivery.held, hw])
  refine ⟨mutation, hmutation, ?_⟩
  rcases decodeDurable_records emulator hrecords with ⟨hk, hdecode⟩ | herror
  · exact .inr ⟨hdecode, fun timestamp => posts_asks _ _ timestamp hk row.id⟩
  · exact .inl herror

theorem Sound.dispatch (h : execution.Sound emulator) (timestamp : String) :
    ∃ execution', execution.dispatch emulator timestamp = some execution' ∧
      execution'.Sound emulator := by
  unfold Execution.dispatch
  split
  · rename_i row hw
    obtain ⟨mutation, hmutation, ⟨error, hdecode⟩ | ⟨hdecode, hrequests⟩⟩ := h.held_event hw
    · rw [hdecode]
      refine ⟨_, rfl, ?_⟩
      have hsound := h.finish hw (some error) [] (by simp) (by simp)
      rwa [List.append_nil] at hsound
    · rw [hdecode]
      obtain ⟨requests, hposts, hasks⟩ := hrequests timestamp
      obtain ⟨attempts, errors, hall, hmap, hmade, herrors⟩ :=
        postAll_attempts emulator.cluster requests execution.history
      simp only [Dispatch.dispatch, hposts, Option.map_some, hall]
      refine ⟨_, rfl, h.finish hw (joined errors) _ ?_ ?_⟩
      · intro dispatched hm
        obtain rfl := List.mem_singleton.mp hm
        dsimp only
        rw [List.drop_left]
        refine ⟨mutation, requests, hmutation, hasks, ?_, hmade, ?_⟩
        · exact hmap ▸ List.prefix_rfl
        · intro error he
          cases he
          exact ⟨hmap, joined_eq_none.trans herrors⟩
      · intro hnone
        exact ⟨_, List.mem_singleton_self _, rfl, congrArg some hnone⟩
  · exact ⟨execution, rfl, h⟩

theorem Sound.crash (h : execution.Sound emulator) (timestamp : String) (sent : Nat) :
    ({ execution with
        delivery := execution.delivery.step .crash
        dispatches := execution.dispatches ++ execution.interrupted emulator timestamp sent } :
      Execution π η).Sound emulator := by
  have hmoves : execution.delivery.Moves (execution.delivery.step .crash) :=
    ⟨rfl, fun _ _ hw => (by cases hw), fun _ hm => .inl hm⟩
  have hstopped := h.moves .crash (fun _ _ he => by cases he) hmoves
  refine { hstopped with asked := ?_, acknowledging := fun _ _ hw => (by cases hw), delivered := ?_ }
  · intro dispatched hm
    rcases List.mem_append.mp hm with hm | hm
    · exact h.asked dispatched hm
    · unfold Execution.interrupted at hm
      split at hm
      · rename_i row hw
        obtain ⟨mutation, hmutation, ⟨error, hdecode⟩ | ⟨hdecode, hrequests⟩⟩ := h.held_event hw
        · rw [hdecode] at hm
          cases hm
        · obtain ⟨requests, hposts, hasks⟩ := hrequests timestamp
          obtain ⟨attempts, errors, hall, hmap, hmade, -⟩ :=
            postAll_attempts emulator.cluster (requests.take sent) execution.history
          simp only [hdecode, hposts, hall, List.drop_left, List.mem_singleton] at hm
          subst hm
          refine ⟨mutation, requests, hmutation, hasks, ?_, hmade, fun _ he => by cases he⟩
          rw [hmap]
          exact List.take_prefix sent requests
      · cases hm
  · intro id hm
    obtain ⟨dispatched, hd, hrest⟩ := h.delivered id hm
    exact ⟨dispatched, List.mem_append_left _ hd, hrest⟩

theorem Sound.step (h : execution.Sound emulator) (event : ExecutionEvent) :
    ∃ execution', execution.step emulator event = some execution' ∧
      execution'.Sound emulator := by
  cases event with
  | commit eventsEnabled mutations => exact ⟨_, rfl, h.commit eventsEnabled mutations⟩
  | recover ok =>
    exact ⟨_, rfl, h.moves (.recover ok) (fun _ _ he => by cases he)
      (Delivery.moves_recover ok)⟩
  | claim now =>
    exact ⟨_, rfl, h.moves (.claim now) (fun _ _ he => by cases he)
      (Delivery.moves_claim now)⟩
  | claimFails => exact ⟨_, rfl, h⟩
  | dispatch timestamp => exact h.dispatch timestamp
  | transition now outcome =>
    exact ⟨_, rfl, h.moves (.transition now outcome) (fun _ _ he => by cases he)
      (Delivery.moves_transition now outcome)⟩
  | crash timestamp sent => exact ⟨_, rfl, h.crash timestamp sent⟩

/-- The loop never panics. -/
theorem Sound.run (h : execution.Sound emulator) (events : List ExecutionEvent) :
    ∃ execution', events.foldlM (Execution.step emulator) execution = some execution' ∧
      execution'.Sound emulator := by
  induction events generalizing execution with
  | nil => exact ⟨execution, rfl, h⟩
  | cons event rest ih =>
    obtain ⟨next, hstep, hsound⟩ := h.step event
    obtain ⟨last, hrun, hlast⟩ := ih hsound
    exact ⟨last, by rw [List.foldlM_cons, hstep]; exact hrun, hlast⟩

/-- What is delivered or has failed for good is not in hand. -/
theorem Sound.not_settled (h : execution.Sound emulator) {row : DurableRow π}
    (hw : execution.delivery.worker = .dispatching row) {entry : Entry}
    (hm : entry ∈ execution.delivery.log) : ¬ entry.settles row.id := by
  intro hs
  have hheld := h.delivery.held
  rw [Delivery.Held, hw] at hheld
  obtain ⟨found, before, hr, hstate, -⟩ := hheld
  have hdone := (h.delivery.settled entry hm row.id hs).2 found hr
  simp [EventRow.outstanding, hstate] at hdone

/-- A step adds to the log, and to the dispatches only those of the event in hand. -/
structure Extends (execution next : Execution π η) : Prop where
  log : execution.delivery.log <+: next.delivery.log
  dispatches : ∃ new, next.dispatches = execution.dispatches ++ new ∧
    ∀ dispatched ∈ new, ∃ row, execution.delivery.worker = .dispatching row ∧
      dispatched.id = row.id

theorem extends_step {next : Execution π η} {event : ExecutionEvent}
    (h : execution.step emulator event = some next) : execution.Extends next := by
  have hsame : ∀ {delivery : Delivery π}, execution.delivery.log <+: delivery.log →
      execution.Extends { execution with delivery } :=
    fun hlog => ⟨hlog, [], (List.append_nil _).symm, by simp⟩
  cases event with
  | commit eventsEnabled mutations =>
    cases h
    refine ⟨?_, [], (List.append_nil _).symm, by simp⟩
    exact Delivery.log_prefix (.insert eventsEnabled (mutations.flatMap emulator.records))
  | recover ok => cases h; exact hsame (Delivery.log_prefix (.recover ok))
  | claim now => cases h; exact hsame (Delivery.log_prefix (.claim now))
  | claimFails => cases h; exact hsame List.prefix_rfl
  | transition now outcome => cases h; exact hsame (Delivery.log_prefix (.transition now outcome))
  | dispatch timestamp =>
    change execution.dispatch emulator timestamp = some next at h
    unfold Execution.dispatch at h
    split at h
    · rename_i row hw
      split at h
      · rename_i error hdecode
        cases h
        exact hsame (Delivery.log_prefix (.finish (some error)))
      · obtain ⟨⟨history, error⟩, -, h⟩ := Option.bind_eq_some_iff.mp h
        cases h
        refine ⟨Delivery.log_prefix (.finish error), _, rfl, fun dispatched hm => ?_⟩
        obtain rfl := List.mem_singleton.mp hm
        exact ⟨row, hw, rfl⟩
    · cases h
      exact hsame List.prefix_rfl
  | crash timestamp sent =>
    cases h
    refine ⟨List.prefix_rfl, _, rfl, fun dispatched hm => ?_⟩
    unfold Execution.interrupted at hm
    split at hm
    · rename_i row hw
      refine ⟨row, hw, ?_⟩
      split at hm
      · cases hm
      · split at hm
        · rw [List.mem_singleton.mp hm]
        · cases hm
    · cases hm

/-- An event that is settled is dispatched no more. -/
theorem Sound.settled_run (h : execution.Sound emulator) {id : Nat} {entry : Entry}
    (hm : entry ∈ execution.delivery.log) (hs : entry.settles id) {later : List ExecutionEvent}
    {last : Execution π η} (hrun : later.foldlM (Execution.step emulator) execution = some last) :
    ∃ new, last.dispatches = execution.dispatches ++ new ∧
      ∀ dispatched ∈ new, dispatched.id ≠ id := by
  induction later generalizing execution with
  | nil =>
    cases hrun
    exact ⟨[], (List.append_nil _).symm, by simp⟩
  | cons event rest ih =>
    obtain ⟨next, hstep, hsound⟩ := h.step event
    rw [List.foldlM_cons, hstep] at hrun
    obtain ⟨hlog, first, hfirst, hnew⟩ := extends_step hstep
    obtain ⟨more, hmore, hrest⟩ := ih hsound (hlog.subset hm) hrun
    refine ⟨first ++ more, by rw [hmore, hfirst, List.append_assoc], fun dispatched hd => ?_⟩
    rcases List.mem_append.mp hd with hd | hd
    · obtain ⟨row, hw, hid⟩ := hnew dispatched hd
      rw [hid]
      rintro rfl
      exact h.not_settled hw hm hs
    · exact hrest dispatched hd

end Execution

/-- A handler that is called for a mutation is called with the mutation. -/
theorem Post.Tells.invoked {emulator : Emulator β π η} {workers : List Worker}
    (hlinked : Linked emulator.cluster workers) {mutation : Mutation} {id : Nat} {worker : Worker}
    {f : Function} {post : Post} (h : post.Tells emulator.formats mutation id worker f)
    (hworker : worker ∈ workers) (hf : f ∈ worker.functions) {call : Invocation η}
    (hcall : Adapter.receiveEvent (emulator.cluster.registry post.worker.base)
      emulator.cluster.size post.payload = .ok call) :
    Invoked emulator mutation id worker f call := by
  obtain ⟨item, type, hlookup, htype, rfl⟩ := receiveEvent_ok hcall
  obtain ⟨found, hfound, htrigger⟩ := hlinked.lookup hworker hf
  rw [h.worker, h.named] at hlookup
  obtain rfl := Option.some.inj (hfound.symm.trans hlookup)
  obtain ⟨timestamp, type', name, service, params, hcontext⟩ := h.context
  have hsame : (post.context.get "eventType").asStr = some type' := by
    rw [hcontext]
    rfl
  obtain rfl := Option.some.inj (htype.symm.trans hsame)
  refine ⟨⟨found, hlookup, htrigger, rfl⟩, h.data, ?_⟩
  rw [hcontext, heard_context]
  rfl

/-- What the runs of the loop come to, with crashes and writes that fail. -/
structure RunsHandlers (emulator : Emulator β π η) (project : String) (workers : List Worker)
    (execution : Execution π η) : Prop where
  /-- Before an event is delivered, a dispatch of it has run the handlers of all functions that
  ask for it, and they returned. -/
  delivered : ∀ id, .delivered id ∈ execution.delivery.log →
    ∃ mutation, execution.committed[id - 1]? = some mutation ∧
      ∃ dispatched ∈ execution.dispatches, dispatched.id = id ∧
        ∀ worker ∈ workers, ∀ f ∈ worker.functions, mutation.Concerns project f →
          ∃ attempt ∈ dispatched.attempts, ∃ call value,
            attempt.call = some (call, .returned value) ∧
              Invoked emulator mutation id worker f call
  /-- Handlers run for committed mutations only, those that their functions ask for, and once in a
  dispatch. -/
  called : ∀ dispatched ∈ execution.dispatches, ∃ mutation,
    execution.committed[dispatched.id - 1]? = some mutation ∧
      (dispatched.attempts.map fun attempt => attempt.post.function).Nodup ∧
      ∀ attempt ∈ dispatched.attempts, ∀ call outcome, attempt.call = some (call, outcome) →
        ∃ worker ∈ workers, ∃ f ∈ worker.functions, mutation.Concerns project f ∧
          Invoked emulator mutation dispatched.id worker f call
  /-- An event that is settled is dispatched no more. -/
  settled : ∀ id, .delivered id ∈ execution.delivery.log ∨ .failed id ∈ execution.delivery.log →
    ∀ (later : List ExecutionEvent) (last : Execution π η),
      later.foldlM (Execution.step emulator) execution = some last →
        ∃ new, last.dispatches = execution.dispatches ++ new ∧
          ∀ dispatched ∈ new, dispatched.id ≠ id

/-- The loop never panics, and its deliveries stand for handlers that have run. -/
theorem durable_changes_run_handlers {processes : List (Process η)} {workers : List Worker}
    {emulator : Emulator β π η} {project : String}
    (hstart : startWorkers [] processes = .ok workers)
    (hserves : Serves emulator.cluster processes)
    (hruntime : emulator.runtime = ⟨project, workers⟩) (events : List ExecutionEvent) :
    ∃ execution, Execution.run emulator events = some execution ∧
      RunsHandlers emulator project workers execution := by
  obtain ⟨hlinked, hnodup, -⟩ := startWorkers_ok hstart hserves
  obtain ⟨execution, hrun, hsound⟩ := (Execution.start_sound emulator).run events
  have hpairs : ∀ worker f, (worker, f) ∈ emulator.runtime.pairs ↔
      worker ∈ workers ∧ f ∈ worker.functions := by
    intro worker f
    rw [mem_pairs, hruntime]
  have hproject : emulator.runtime.project = project := by rw [hruntime]
  refine ⟨execution, hrun, ⟨?_, ?_, ?_⟩⟩
  · intro id hm
    obtain ⟨dispatched, hd, rfl, hresult⟩ := hsound.delivered id hm
    obtain ⟨mutation, requests, hmutation, hof⟩ := hsound.asked dispatched hd
    obtain ⟨hmap, hsucceeds⟩ := hof.all none hresult
    refine ⟨mutation, hmutation, dispatched, hd, rfl, fun worker hw f hf hc => ?_⟩
    obtain ⟨post, hpost, htells⟩ := hof.asks.asked worker f ((hpairs worker f).mpr ⟨hw, hf⟩)
      (hproject ▸ hc)
    rw [← hmap] at hpost
    obtain ⟨attempt, ha, rfl⟩ := List.mem_map.mp hpost
    obtain ⟨before, hbefore⟩ := hof.made attempt ha
    obtain ⟨hcalled, hreturned⟩ := emulator.cluster.attempt_call before attempt.post
    have hanswer := hsucceeds.mp rfl attempt ha
    rw [hbefore] at hanswer
    obtain ⟨call, value, hcall⟩ := hreturned hanswer
    refine ⟨attempt, ha, call, value, by rw [hbefore]; exact hcall, ?_⟩
    exact htells.invoked hlinked hw hf (hcalled call _ hcall)
  · intro dispatched hd
    obtain ⟨mutation, requests, hmutation, hof⟩ := hsound.asked dispatched hd
    refine ⟨mutation, hmutation, ?_, fun attempt ha call outcome hcall => ?_⟩
    · have hfunctions : (dispatched.attempts.map fun attempt => attempt.post.function) =
          (dispatched.attempts.map Attempt.post).map Post.function := by
        rw [List.map_map]
        rfl
      rw [hfunctions]
      have honce := hof.asks.once
      rw [hruntime] at honce
      exact ((hof.sent.sublist.map Post.function).trans honce).nodup hnodup
    · have hpost : attempt.post ∈ requests := hof.sent.subset (List.mem_map_of_mem ha)
      obtain ⟨worker, f, hpair, hc, htells⟩ := hof.asks.told attempt.post hpost
      obtain ⟨hw, hf⟩ := (hpairs worker f).mp hpair
      obtain ⟨before, hbefore⟩ := hof.made attempt ha
      rw [hbefore] at hcall
      refine ⟨worker, hw, f, hf, hproject ▸ hc, ?_⟩
      exact htells.invoked hlinked hw hf
        ((emulator.cluster.attempt_call before attempt.post).1 call outcome hcall)
  · rintro id (hm | hm) later last hlater
    · exact hsound.settled_run hm rfl hlater
    · exact hsound.settled_run hm rfl hlater

/-- A payload as it is. -/
abbrev SamplePayload := FirestoreOutboxPayload Document ⊕ String × Json

def samplePayloads : PayloadFormat Document SamplePayload where
  document := .inl
  object kind value := .inr (kind, value)
  readDocument
    | .inl payload => .ok payload
    | .inr _ => .error "missing field"
  readObject
    | .inl _ => .error "missing field"
    | .inr payload => .ok payload
  document_read _ := rfl
  object_read _ _ := rfl

def sampleEmulator : Emulator Document SamplePayload Unit :=
  ⟨samplePayloads, Firestore.plainCodec, sampleTexts, sampleCluster, ⟨"demo-app", [sampleWorker]⟩⟩

theorem durable_changes_run_handlers_sample :
    ∃ execution, Execution.run sampleEmulator
        [.recover true, .commit true [.document none (some sampleItem)], .claim 0, .dispatch "",
          .transition 0 .done] = some execution ∧
      RunsHandlers sampleEmulator "demo-app" [sampleWorker] execution :=
  durable_changes_run_handlers
    (show startWorkers [] [sampleProcess] = .ok [sampleWorker] from rfl)
    ⟨fun process hm => by rw [List.mem_singleton.mp hm]; rfl⟩ rfl _

end FirebaseEmu.Functions.Dispatch
