import FirebaseEmu.Firestore.JsonCodec
import FirebaseEmu.Functions.Adapter
import FirebaseEmu.Functions.Queue
import FirebaseEmu.Functions.TriggerPaths
import FirebaseEmu.Lib.Search

namespace FirebaseEmu.Functions.Dispatch
open Lib
open Adapter (Function)
open Firestore (Document TextFormats documentJson)

/-- A process with the functions it has announced. -/
structure Worker where
  codebase : String
  base : String
  functions : List Function

structure Runtime where
  project : String
  workers : List Worker

/-- An event for one function of a worker. -/
structure Post where
  worker : Worker
  function : String
  data : Json
  context : Json

def Post.payload (post : Post) : Json :=
  .object [("event", .object [("context", post.context), ("data", post.data)]),
    ("name", .string post.function)]

/-- The status and the text of a response, or the error of the client. -/
abbrev Answer := Except String (Nat × String)

def Answer.succeeds : Answer → Bool
  | .ok (status, _) => 200 ≤ status && status < 300
  | .error _ => false

/-- The result of `post_event`. -/
def postError (post : Post) (answer : Answer) : Option String :=
  match answer with
  | .ok (_, text) =>
    if answer.succeeds then none else some s!"{post.worker.codebase}/{post.function}: {text}"
  | .error error => some s!"{post.worker.codebase}/{post.function}: {error}"

/-- `r.rsplit('/').next()`. -/
def lastPart (resource : String) : Option String := (split '/' resource).getLast?

/-- `text.split(sep).nth(1)`. -/
def secondPart (sep text : String) : Option String :=
  (second sep.toList text.toList).map String.ofList

/-- `f.trigger["eventTrigger"]`. -/
def event (f : Function) : Json := f.trigger.get "eventTrigger"

/-- `event["eventType"].as_str()`. -/
def eventType (f : Function) : Option String := ((event f).get "eventType").asStr

def resource (f : Function) : Option String := ((event f).get "resource").asStr

def scheduled (f : Function) : Bool := (f.trigger.find? "schedule").isSome

def eventKind (before after : Bool) : String :=
  match before, after with
  | false, true => "create"
  | true, false => "delete"
  | _, _ => "update"

/-- A Firestore trigger whose last word is `write`, or the kind of the event. -/
def takesKind (kind type : String) : Bool :=
  startsWith type "providers/cloud.firestore/eventTypes/document." &&
    (endsWith type ".write" || endsWith type ("." ++ kind))

def context (eventId timestamp eventType name service params : Json) : Json :=
  .object [("eventId", eventId), ("eventType", eventType), ("params", params),
    ("resource", .object [("name", name), ("service", service)]), ("timestamp", timestamp)]

def eventId (id : Nat) : String := "rust-" ++ toString id

variable (formats : TextFormats)

def firestoreData (before after : Option Document) : Json :=
  .object [("oldValue", (before.map (documentJson formats)).getD (.object [])),
    ("value", (after.map (documentJson formats)).getD (.object []))]

/-- The turn of the loop for one function. The outer `none` is a panic. -/
def firestorePost (id : Nat) (before after : Option Document) (document : Document)
    (path : String) (worker : Worker) (f : Function) : Option (Option Post) :=
  let type := (eventType f).getD ""
  if !takesKind (eventKind before.isSome after.isSome) type then some none
  else
    match secondPart "/documents/" ((resource f).getD "") with
    | none => some none
    | some pattern => do
      match ← wildcardParams pattern path with
      | none => return none
      | some params =>
        let timestamp := (documentJson formats document).get "updateTime"
        return some ⟨worker, f.name, firestoreData formats before after,
          context (.string (eventId id)) timestamp (.string type) (.string document.name)
            (.string "firestore.googleapis.com") params⟩

def storagePost (id : Nat) (kind : String) (object : Json) (worker : Worker) (f : Function) :
    Option Post :=
  let type := "google.storage.object." ++ kind
  let bucket := ((object.get "bucket").asStr).getD ""
  if eventType f ≠ some type then none
  else
    let configured := ((resource f).bind (secondPart "/buckets/")).getD ""
    if configured ≠ "" ∧ configured ≠ "\x7bbucket\x7d" ∧ configured ≠ bucket then none
    else
      let timestamp := ((object.get "updated").asStr).getD "1970-01-01T00:00:00Z"
      let name := ((object.get "name").asStr).getD ""
      some ⟨worker, f.name, object,
        context (.string (eventId id)) (.string timestamp) (.string type)
          (.string s!"projects/_/buckets/{bucket}/objects/{name}")
          (.string "storage.googleapis.com") (.object [])⟩

def publishType : String := "google.pubsub.topic.publish"

def pubsubPost (project : String) (id : Nat) (topic : String) (message : Json) (worker : Worker)
    (f : Function) : Option Post :=
  if eventType f ≠ some publishType ∨ scheduled f then none
  else if (resource f).bind lastPart ≠ some topic then none
  else
    some ⟨worker, f.name, message,
      context (.string (eventId id)) (message.get "publishTime") (.string publishType)
        (.string s!"projects/{project}/topics/{topic}") (.string "pubsub.googleapis.com")
        (.object [])⟩

/-- The event of a message that a trigger subscription has delivered. -/
def pubsubFunctionPost (worker : Worker) (f : Function) (message : Json) : Post :=
  ⟨worker, f.name, message,
    context (message.get "messageId") (message.get "publishTime")
      (.string ((eventType f).getD publishType)) (.string ((resource f).getD ""))
      (.string "pubsub.googleapis.com") (.object [])⟩

def scheduleMessage (id : Nat) (timestamp : String) : Json :=
  .object [("attributes", .object []), ("data", .string "e30="),
    ("messageId", .string (eventId id)), ("publishTime", .string timestamp)]

def schedulePost (project : String) (id : Nat) (timestamp : String) (worker : Worker)
    (f : Function) : Post :=
  ⟨worker, f.name, scheduleMessage id timestamp,
    context (.string (eventId id)) (.string timestamp)
      (.string ((eventType f).getD publishType)) (.string s!"projects/{project}/topics")
      (.string "pubsub.googleapis.com") (.object [])⟩

/-- The turns of the loops over the workers and their functions. -/
def Runtime.pairs (runtime : Runtime) : List (Worker × Function) :=
  runtime.workers.flatMap fun worker => worker.functions.map fun f => (worker, f)

def Runtime.collect (runtime : Runtime) (post : Worker → Function → Option Post) : List Post :=
  runtime.pairs.filterMap fun pair => post pair.1 pair.2

/-- `dispatch_firestore`: a document outside the default database of the project has no
triggers. -/
def firestorePosts (runtime : Runtime) (id : Nat) (before after : Option Document) :
    Option (List Post) := do
  let document ← after <|> before
  match stripPrefix document.name s!"projects/{runtime.project}/databases/(default)/documents/" with
  | none => return []
  | some path =>
    let turns ← runtime.pairs.mapM fun pair =>
      firestorePost formats id before after document path pair.1 pair.2
    return turns.reduceOption

/-- The requests that an event leads to, or the error without any; `none` is a panic. -/
def posts (runtime : Runtime) (timestamp : String) (event : QueuedEvent) :
    Option (Except String (List Post)) :=
  match event.source with
  | .firestore before after => (firestorePosts formats runtime event.id before after).map .ok
  | .storage kind object => some (.ok (runtime.collect (storagePost event.id kind object)))
  | .pubSub topic message =>
    some (.ok (runtime.collect (pubsubPost runtime.project event.id topic message)))
  | .schedule function =>
    match runtime.pairs.find? fun pair => pair.2.name == function && scheduled pair.2 with
    | some (worker, f) => some (.ok [schedulePost runtime.project event.id timestamp worker f])
    | none => some (.error s!"Unknown scheduled function: {function}")

section Send
variable {ω : Type} (send : ω → Post → ω × Answer)

/-- The requests in turn. Each finds what the handlers of those before it did. -/
def postAll (world : ω) : List Post → ω × List String
  | [] => (world, [])
  | post :: rest =>
    let (world, answer) := send world post
    let (world, errors) := postAll world rest
    (world, (postError post answer).toList ++ errors)

/-- The result of the dispatch, from the errors of its requests. -/
def joined (errors : List String) : Option String :=
  if errors.isEmpty then none else some ("; ".intercalate errors)

def dispatch (runtime : Runtime) (timestamp : String) (world : ω) (event : QueuedEvent) :
    Option (ω × Option String) :=
  (posts formats runtime timestamp event).map fun
    | .error error => (world, some error)
    | .ok posts =>
      let (world, errors) := postAll send world posts
      (world, joined errors)

end Send

end FirebaseEmu.Functions.Dispatch
