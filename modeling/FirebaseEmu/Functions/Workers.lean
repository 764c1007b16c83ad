import FirebaseEmu.Functions.Dispatch

namespace FirebaseEmu.Functions.Dispatch
open Lib
open Adapter (Function Registry Setup Export Item Invocation HandlerOutcome Response receiveEvent respond)
open Firestore (Document TextFormats)

/-- A process before it serves: its codebase, where it will listen, and what it loads. -/
structure Process (η : Type) where
  codebase : String
  base : String
  setup : Setup η
  exports : List (String × Export η)

variable {η : Type}

/-- `start_worker`, as far as what the process announces. -/
def startWorker (process : Process η) : Except String Worker := do
  let registry ← Adapter.load process.setup process.exports
  match Adapter.ready registry with
  | some functions => return ⟨process.codebase, process.base, functions⟩
  | none => .error "invalid readiness message"

/-- The names that are taken after the functions of a worker. -/
def checkNames : List String → List String → Except String (List String)
  | names, [] => .ok names
  | names, name :: rest =>
    if names.contains name then .error s!"Duplicate function name across codebases: {name}"
    else checkNames (name :: names) rest

def Worker.names (worker : Worker) : List String := worker.functions.map Function.name

/-- The loop of `serve` over the codebases. -/
def startWorkers (names : List String) : List (Process η) → Except String (List Worker)
  | [] => .ok []
  | process :: rest => do
    let worker ← startWorker process
    let names ← checkNames names worker.names
    let workers ← startWorkers names rest
    return worker :: workers

/-- A request to a worker: the call of a handler that it led to, and the answer that came. -/
structure Attempt (η : Type) where
  post : Post
  call : Option (Invocation η × HandlerOutcome)
  answer : Answer

/-- The processes behind the workers. What handlers do may depend on all that happened before;
a request may fail to arrive, and so may its answer. -/
structure Cluster (η : Type) where
  registry : String → Registry η
  size : Json → Nat
  text : Json → String
  outcome : List (Attempt η) → Invocation η → HandlerOutcome
  unsent : List (Attempt η) → Post → Option String
  lost : List (Attempt η) → Post → Option String

namespace Cluster
variable (cluster : Cluster η)

def hear (history : List (Attempt η)) (post : Post) (response : Response) : Answer :=
  match cluster.lost history post with
  | some error => .error error
  | none => .ok (response.status, cluster.text response.body)

def attempt (history : List (Attempt η)) (post : Post) : Attempt η :=
  match cluster.unsent history post with
  | some error => ⟨post, none, .error error⟩
  | none =>
    match receiveEvent (cluster.registry post.worker.base) cluster.size post.payload with
    | .error response => ⟨post, none, cluster.hear history post response⟩
    | .ok call =>
      let outcome := cluster.outcome history call
      ⟨post, some (call, outcome), cluster.hear history post (respond outcome)⟩

def send (history : List (Attempt η)) (post : Post) : List (Attempt η) × Answer :=
  (history ++ [cluster.attempt history post], (cluster.attempt history post).answer)

end Cluster

/-- The cluster is that of the processes the emulator has started. -/
structure Serves (cluster : Cluster η) (processes : List (Process η)) : Prop where
  loaded : ∀ process ∈ processes,
    Adapter.load process.setup process.exports = .ok (cluster.registry process.base)

/-- Each worker has the functions that its process serves. -/
structure Linked (cluster : Cluster η) (workers : List Worker) : Prop where
  sound : ∀ worker ∈ workers, (cluster.registry worker.base).Sound
  announced : ∀ worker ∈ workers,
    Adapter.ready (cluster.registry worker.base) = some worker.functions

theorem checkNames_ok {names rest after : List String} (h : checkNames names rest = .ok after) :
    rest.Nodup ∧ List.Disjoint rest names ∧ after = rest.reverse ++ names := by
  induction rest generalizing names with
  | nil =>
    cases h
    exact ⟨.nil, List.disjoint_nil_left _, rfl⟩
  | cons name rest ih =>
    rw [checkNames] at h
    split at h
    · cases h
    rename_i hnew
    have hnew : name ∉ names := by simpa using hnew
    obtain ⟨hnodup, hdisjoint, rfl⟩ := ih h
    refine ⟨List.nodup_cons.mpr ⟨?_, hnodup⟩, ?_, by simp⟩
    · intro hm
      exact hdisjoint hm List.mem_cons_self
    · rw [List.disjoint_cons_left]
      exact ⟨hnew, List.disjoint_of_subset_right (List.subset_cons_self _ _) hdisjoint⟩

theorem startWorker_ok {process : Process η} {worker : Worker}
    (h : startWorker process = .ok worker) :
    worker.base = process.base ∧ ∃ registry,
      Adapter.load process.setup process.exports = .ok registry ∧
      Adapter.ready registry = some worker.functions := by
  obtain ⟨registry, hl, h⟩ := exceptBind_eq_ok.mp h
  cases hr : Adapter.ready registry with
  | none =>
    rw [hr] at h
    cases h
  | some functions =>
    rw [hr] at h
    cases h
    exact ⟨rfl, registry, hl, hr⟩

/-- The workers that start serve what they announce, and no two functions have one name. -/
theorem startWorkers_ok {cluster : Cluster η} {processes : List (Process η)} {names : List String}
    {workers : List Worker} (h : startWorkers names processes = .ok workers)
    (hs : Serves cluster processes) :
    Linked cluster workers ∧ (workers.flatMap Worker.names).Nodup ∧
      List.Disjoint (workers.flatMap Worker.names) names := by
  induction processes generalizing names workers with
  | nil =>
    cases h
    exact ⟨⟨by simp, by simp⟩, .nil, List.disjoint_nil_left _⟩
  | cons process rest ih =>
    rw [startWorkers] at h
    obtain ⟨worker, hworker, h⟩ := exceptBind_eq_ok.mp h
    obtain ⟨taken, htaken, h⟩ := exceptBind_eq_ok.mp h
    obtain ⟨others, hothers, h⟩ := exceptBind_eq_ok.mp h
    cases h
    obtain ⟨hlinked, hnodup, hdisjoint⟩ :=
      ih hothers ⟨fun p hp => hs.loaded p (List.mem_cons_of_mem _ hp)⟩
    obtain ⟨hown, hapart, rfl⟩ := checkNames_ok htaken
    obtain ⟨hbase, registry, hl, hr⟩ := startWorker_ok hworker
    have hregistry : registry = cluster.registry worker.base := by
      rw [hbase]
      exact Except.ok.inj (hl.symm.trans (hs.loaded process List.mem_cons_self))
    subst hregistry
    refine ⟨⟨?_, ?_⟩, ?_, ?_⟩
    · rw [List.forall_mem_cons]
      exact ⟨Adapter.load_sound hl, hlinked.sound⟩
    · rw [List.forall_mem_cons]
      exact ⟨hr, hlinked.announced⟩
    · rw [List.flatMap_cons, List.nodup_append']
      refine ⟨hown, hnodup, ?_⟩
      intro name hm ho
      exact hdisjoint ho (List.mem_append_left _ (List.mem_reverse.mpr hm))
    · rw [List.flatMap_cons, List.disjoint_append_left]
      refine ⟨hapart, ?_⟩
      exact List.disjoint_of_subset_right (List.subset_append_right _ _) hdisjoint

/-- The event type under the name that the handlers' library knows. -/
def heardType (type : String) : String :=
  match stripPrefix type Adapter.firestoreTypes with
  | some action => "google.firestore." ++ action
  | none => type

/-- A request about a function, in the form of all requests of the emulator. -/
structure Post.About (post : Post) (f : Function) (type : String) : Prop where
  listed : f ∈ post.worker.functions
  named : f.name = post.function
  typed : eventType f = some type
  context : ∃ id timestamp name service params,
    post.context = Dispatch.context (.string id) (.string timestamp) (.string type) name service
      params

/-- The context that the handler gets. -/
def Post.heard (post : Post) (type : String) : Json := Adapter.renameType post.context type

theorem heard_context (id timestamp name service params : Json) (type : String) :
    Adapter.renameType (context id timestamp (.string type) name service params) type =
      context id timestamp (.string (heardType type)) name service params := by
  unfold heardType
  cases hp : stripPrefix type Adapter.firestoreTypes with
  | none => simp only [context, Adapter.renameType, hp]
  | some action =>
    simp only [context, Adapter.renameType, hp]
    have h₁ : ¬ "eventType" < "eventId" := by decide
    have h₂ : ¬ "eventType" = "eventId" := by decide
    simp [insertKey, h₁, h₂]

theorem announced_eq {item : Item η} {f : Function} (h : item.announced = some f) :
    f.name = item.name ∧ f.trigger = item.trigger := by
  obtain ⟨regions, -, rfl⟩ := Option.map_eq_some_iff.mp h
  exact ⟨rfl, rfl⟩

/-- A function that is announced is in the registry under its name. -/
theorem Linked.lookup {cluster : Cluster η} {workers : List Worker}
    (h : Linked cluster workers) {worker : Worker} (hw : worker ∈ workers) {f : Function}
    (hf : f ∈ worker.functions) :
    ∃ item, Adapter.lookup (cluster.registry worker.base) f.name = some item ∧
      item.trigger = f.trigger := by
  have hready := h.announced worker hw
  obtain ⟨item, hm, ha⟩ := mem_mapM hready hf
  obtain ⟨hname, htrigger⟩ := announced_eq ha
  refine ⟨item, ?_, htrigger.symm⟩
  rw [hname]
  exact Adapter.lookup_of_mem (h.sound worker hw) hm

/-- The process takes a request about one of its functions, and calls the function's handler. -/
theorem Linked.receiveEvent {cluster : Cluster η} {workers : List Worker}
    (h : Linked cluster workers) {post : Post} (hw : post.worker ∈ workers) {f : Function}
    {type : String} (ha : post.About f type) (hsize : cluster.size post.payload ≤ Adapter.maxBodyBytes) :
    ∃ item, Adapter.lookup (cluster.registry post.worker.base) post.function = some item ∧
      receiveEvent (cluster.registry post.worker.base) cluster.size post.payload =
        .ok ⟨item.fn, post.data, post.heard type⟩ := by
  obtain ⟨item, hl, ht⟩ := h.lookup hw ha.listed
  rw [ha.named] at hl
  refine ⟨item, hl, ?_⟩
  obtain ⟨id, timestamp, name, service, params, hcontext⟩ := ha.context
  have htype : Adapter.eventType item.trigger = some (.string type) := by
    have htyped := ha.typed
    rw [eventType, event, ← ht] at htyped
    unfold Adapter.eventType
    rw [Json.get_eq] at htyped
    cases hfind : (item.trigger.get "eventTrigger").find? "eventType" with
    | none =>
      rw [hfind] at htyped
      cases htyped
    | some found =>
      rw [hfind] at htyped
      cases found <;> cases htyped
      rfl
  have htruthy : Adapter.truthy (item.trigger.get "eventTrigger") = true := by
    unfold Adapter.eventType at htype
    cases hget : item.trigger.get "eventTrigger" with
    | object entries => rfl
    | _ =>
      rw [hget] at htype
      cases htype
  unfold Adapter.receiveEvent
  rw [if_neg (Nat.not_lt.mpr hsize)]
  have hname : (post.payload.get "name").asStr = some post.function := rfl
  have hdata : (post.payload.get "event").find? "data" = some post.data := rfl
  have hget : (post.payload.get "event").get "context" = post.context := rfl
  have hobject : Adapter.isObject (post.payload.get "event") = true := rfl
  have heard : Adapter.isObject post.context = true ∧
      (post.context.get "eventId").asStr = some id ∧
      (post.context.get "timestamp").asStr = some timestamp ∧
      post.context.find? "eventType" = some (.string type) ∧
      (post.context.get "eventType").asStr = some type := by
    rw [hcontext]
    exact ⟨rfl, rfl, rfl, rfl, rfl⟩
  obtain ⟨hisObject, heventId, htimestamp, hfind, heventType⟩ := heard
  have hstrict : Adapter.strictEq (some (.string type)) (some (.string type)) = true :=
    beq_self_eq_true type
  rw [hname, Option.bind_some, hl]
  simp only [htruthy, hdata, hget, hobject, hisObject, heventId, htimestamp, hfind, htype,
    hstrict, heventType, Post.heard, Bool.not_true, Bool.or_self, Bool.false_eq_true, if_false,
    Option.isNone_some]

/-- A request either does not arrive, or its handler is called with what the request says. It
succeeds when the handler returns and the answer comes. -/
structure Attempt.Reached (cluster : Cluster η) (attempt : Attempt η) : Prop where
  handler : ∀ call outcome, attempt.call = some (call, outcome) →
    ∃ item f type, attempt.post.About f type ∧
      Adapter.lookup (cluster.registry attempt.post.worker.base) attempt.post.function =
        some item ∧ call = ⟨item.fn, attempt.post.data, attempt.post.heard type⟩
  silent : attempt.call = none → ∃ error, attempt.answer = .error error
  succeeds : attempt.answer.succeeds = true →
    ∃ call value, attempt.call = some (call, .returned value)

/-- The status of a process is a success for the handlers that return. -/
theorem respond_succeeds (outcome : HandlerOutcome) (text : String) :
    Answer.succeeds (.ok ((respond outcome).status, text)) = true ↔
      ∃ value, outcome = .returned value := by
  cases outcome <;> simp [respond, Answer.succeeds]

theorem Cluster.attempt_post (cluster : Cluster η) (history : List (Attempt η)) (post : Post) :
    (cluster.attempt history post).post = post := by
  unfold Cluster.attempt
  split
  · rfl
  · split <;> rfl

theorem Linked.attempt {cluster : Cluster η} {workers : List Worker} (h : Linked cluster workers)
    {post : Post} (hw : post.worker ∈ workers) {f : Function} {type : String}
    (ha : post.About f type) (hsize : cluster.size post.payload ≤ Adapter.maxBodyBytes)
    (history : List (Attempt η)) :
    (cluster.attempt history post).post = post ∧
      (cluster.attempt history post).Reached cluster := by
  obtain ⟨item, hl, hreceive⟩ := h.receiveEvent hw ha hsize
  unfold Cluster.attempt
  cases hunsent : cluster.unsent history post with
  | some error =>
    refine ⟨rfl, ⟨?_, ?_, ?_⟩⟩
    · intro call outcome hc
      cases hc
    · intro _
      exact ⟨error, rfl⟩
    · intro hs
      cases hs
  | none =>
    dsimp only
    rw [hreceive]
    refine ⟨rfl, ⟨?_, ?_, ?_⟩⟩
    · intro call outcome hc
      cases hc
      exact ⟨item, f, type, ha, hl, rfl⟩
    · intro hc
      cases hc
    · intro hs
      unfold Cluster.hear at hs
      cases hlost : cluster.lost history post with
      | some error =>
        rw [hlost] at hs
        cases hs
      | none =>
        rw [hlost] at hs
        obtain ⟨value, hvalue⟩ := (respond_succeeds _ _).mp hs
        exact ⟨_, value, congrArg (fun outcome => some (_, outcome)) hvalue⟩

theorem postError_eq_none {post : Post} {answer : Answer} :
    postError post answer = none ↔ answer.succeeds = true := by
  cases answer with
  | error error => simp [postError, Answer.succeeds]
  | ok response =>
    obtain ⟨status, text⟩ := response
    simp [postError]

/-- The requests of an event: one attempt for each, in order. -/
theorem postAll_attempts (cluster : Cluster η) (posts : List Post) (history : List (Attempt η)) :
    ∃ attempts errors, postAll cluster.send history posts = (history ++ attempts, errors) ∧
      attempts.map Attempt.post = posts ∧
      (∀ attempt ∈ attempts, ∃ before, attempt = cluster.attempt before attempt.post) ∧
      (errors = [] ↔ ∀ attempt ∈ attempts, attempt.answer.succeeds = true) := by
  induction posts generalizing history with
  | nil => exact ⟨[], [], by simp [Dispatch.postAll], rfl, by simp, by simp⟩
  | cons post rest ih =>
    have hpost := cluster.attempt_post history post
    obtain ⟨attempts, errors, hall, hmap, hmade, herrors⟩ :=
      ih (history ++ [cluster.attempt history post])
    refine ⟨cluster.attempt history post :: attempts,
      (postError post (cluster.attempt history post).answer).toList ++ errors, ?_, ?_, ?_, ?_⟩
    · rw [Dispatch.postAll]
      simp only [Cluster.send, hall, List.append_assoc, List.cons_append, List.nil_append]
    · rw [List.map_cons, hpost, hmap]
    · rw [List.forall_mem_cons]
      exact ⟨⟨history, by rw [hpost]⟩, hmade⟩
    · rw [List.append_eq_nil_iff, herrors, List.forall_mem_cons, Option.toList_eq_nil_iff,
        postError_eq_none]

/-- A call that a process makes is one of the handler that the request names. -/
theorem receiveEvent_ok {registry : Adapter.Registry η} {size : Json → Nat} {post : Post}
    {call : Invocation η} (h : Adapter.receiveEvent registry size post.payload = .ok call) :
    ∃ item type, Adapter.lookup registry post.function = some item ∧
      (post.context.get "eventType").asStr = some type ∧
      call = ⟨item.fn, post.data, Adapter.renameType post.context type⟩ := by
  unfold Adapter.receiveEvent at h
  split at h
  · cases h
  have hname : (post.payload.get "name").asStr = some post.function := rfl
  have hdata : (post.payload.get "event").find? "data" = some post.data := rfl
  have hget : (post.payload.get "event").get "context" = post.context := rfl
  rw [hname, Option.bind_some] at h
  split at h
  · cases h
  rename_i item hlookup
  split at h
  · cases h
  simp only [hdata, hget] at h
  split at h
  · cases h
  split at h
  · cases h
  split at h
  · rename_i type htype
    cases h
    exact ⟨item, type, hlookup, htype, rfl⟩
  · cases h

/-- What a handler is called with, and that it has returned when the request succeeds. -/
theorem Cluster.attempt_call (cluster : Cluster η) (before : List (Attempt η)) (post : Post) :
    (∀ call outcome, (cluster.attempt before post).call = some (call, outcome) →
      Adapter.receiveEvent (cluster.registry post.worker.base) cluster.size post.payload =
        .ok call) ∧
    ((cluster.attempt before post).answer.succeeds = true →
      ∃ call value, (cluster.attempt before post).call = some (call, .returned value)) := by
  unfold Cluster.attempt
  cases hunsent : cluster.unsent before post with
  | some error => exact ⟨fun _ _ hc => (by cases hc), fun hs => (by cases hs)⟩
  | none =>
    dsimp only
    cases hreceive : Adapter.receiveEvent (cluster.registry post.worker.base) cluster.size
        post.payload with
    | error response =>
      refine ⟨fun _ _ hc => (by cases hc), fun hs => ?_⟩
      have hstatus := Adapter.receiveEvent_error hreceive
      dsimp only at hs
      unfold Cluster.hear at hs
      cases hlost : cluster.lost before post with
      | some error =>
        rw [hlost] at hs
        cases hs
      | none =>
        rw [hlost] at hs
        simp only [Answer.succeeds, Bool.and_eq_true, decide_eq_true_eq] at hs
        omega
    | ok call =>
      refine ⟨fun _ _ hc => (by cases hc; rfl), fun hs => ?_⟩
      dsimp only at hs
      unfold Cluster.hear at hs
      cases hlost : cluster.lost before post with
      | some error =>
        rw [hlost] at hs
        cases hs
      | none =>
        rw [hlost] at hs
        obtain ⟨value, hvalue⟩ := (respond_succeeds _ _).mp hs
        exact ⟨_, value, congrArg (fun outcome => some (_, outcome)) hvalue⟩

/-- The processes of an event's functions take its requests. -/
theorem Linked.postAll {cluster : Cluster η} {workers : List Worker} (h : Linked cluster workers)
    {posts : List Post}
    (hposts : ∀ post ∈ posts, post.worker ∈ workers ∧ ∃ f type, post.About f type)
    (hsize : ∀ post ∈ posts, cluster.size post.payload ≤ Adapter.maxBodyBytes)
    (history : List (Attempt η)) :
    ∃ attempts errors, postAll cluster.send history posts = (history ++ attempts, errors) ∧
      attempts.map Attempt.post = posts ∧ (∀ attempt ∈ attempts, attempt.Reached cluster) ∧
      (errors = [] ↔ ∀ attempt ∈ attempts, attempt.answer.succeeds = true) := by
  obtain ⟨attempts, errors, hall, hmap, hmade, herrors⟩ := postAll_attempts cluster posts history
  refine ⟨attempts, errors, hall, hmap, ?_, herrors⟩
  intro attempt hm
  have hpost : attempt.post ∈ posts := by
    rw [← hmap]
    exact List.mem_map_of_mem hm
  obtain ⟨hw, f, type, ha⟩ := hposts attempt.post hpost
  obtain ⟨before, hbefore⟩ := hmade attempt hm
  rw [hbefore]
  exact (h.attempt hw ha (hsize attempt.post hpost) before).2

end FirebaseEmu.Functions.Dispatch
