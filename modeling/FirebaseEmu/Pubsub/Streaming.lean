import FirebaseEmu.Pubsub.Broker

namespace FirebaseEmu.Pubsub
open Lib Std

def MemoryState.activeAckIds (state : MemoryState) (subscription : String)
    (ackIds : List String) (now : Int) : List String :=
  ((state.deliveries.toList.filter fun entry =>
    entry.2.subscription == subscription && entry.2.state == .inFlight &&
      entry.2.deadlineMs.any (now < ·)).filterMap fun entry => entry.2.ackId).filter ackIds.contains

def Tables.activeAckIds {β : Type} (tables : Tables β) (subscription : String)
    (ackIds : List String) (now : Int) : List String :=
  ((tables.deliveries.toList.filter fun entry =>
    entry.1.subscription == subscription && entry.2.state == .inFlight &&
      entry.2.deadline.any (now < ·)).filterMap fun entry => entry.2.ackId).filter ackIds.contains

/-- What a check of leases reads after it has looked up the subscription. -/
def PubSubService.activeAckIds {β : Type} (service : PubSubService β) (subscription : String)
    (ackIds : List String) (now : Int) : List String :=
  match service.persistence with
  | some tables => tables.activeAckIds subscription ackIds now
  | none => service.memory.activeAckIds subscription ackIds now

/-- The leases that an answer hands out. -/
def Reply.ackIds : Reply → List String
  | .claimed given => given.map BrokerMessage.ackId
  | _ => []

/-- What a streaming pull reads of a request. -/
structure StreamingPullRequest where
  subscription : String
  ackIds : List String
  modifyDeadlineSeconds : List Int
  modifyDeadlineAckIds : List String
  streamAckDeadlineSeconds : Int
  maxOutstandingMessages : Int
  maxOutstandingBytes : Int
  deriving DecidableEq

namespace StreamingPullRequest

def maxMessages (first : StreamingPullRequest) : Nat :=
  if first.maxOutstandingMessages ≤ 0 then 1000 else (min first.maxOutstandingMessages 10000).toNat

def maxBytes (first : StreamingPullRequest) : Int :=
  if first.maxOutstandingBytes ≤ 0 then maxPendingBytes
  else min first.maxOutstandingBytes maxPendingBytes

end StreamingPullRequest

/-- The calls of a stream's task to the broker. Each looks up the subscription first. -/
inductive Call where
  | acknowledge (request : StreamingPullRequest)
  | modify (ackId : String) (seconds : Int) (rest : List (String × Int))
  | activeAckIds
  | claim
  | release
  deriving DecidableEq

/-- Where a stream's task stands: before the lookup of a call, after it, or with what the
call has answered. -/
inductive Stage where
  | receiving
  | calling (call : Call)
  | found (call : Call)
  | acknowledged (request : StreamingPullRequest)
  | modified (ackId : String) (seconds : Int) (rest : List (String × Int))
  | checked (active : List String)
  | claimed (given : List BrokerMessage)
  | sending
  | rejecting (status : Status)
  | ended
  deriving DecidableEq

namespace Stage

/-- The next deadline to modify, and after the last one the check of the leases. -/
def modifying : List (String × Int) → Stage
  | [] => .calling .activeAckIds
  | (ackId, seconds) :: rest => .calling (.modify ackId seconds rest)

def afterAcks (request : StreamingPullRequest) : Stage :=
  modifying (request.modifyDeadlineAckIds.zip request.modifyDeadlineSeconds)

/-- A request as the task takes it up. -/
def handle (firstRequest : Bool) (request : StreamingPullRequest) : Stage :=
  if !firstRequest && (request.subscription != "" || request.maxOutstandingMessages != 0 ||
      request.maxOutstandingBytes != 0) then
    .rejecting (invalidArgument
      "subscription and flow-control limits are only valid on the first stream request")
  else if request.modifyDeadlineAckIds.length != request.modifyDeadlineSeconds.length then
    .rejecting (invalidArgument "modify deadline ID and seconds lengths differ")
  else if request.ackIds.isEmpty then afterAcks request
  else .calling (.acknowledge request)

def afterReply (next : Stage) : Reply → Stage
  | .refused status => .rejecting status
  | _ => next

/-- A call that failed ends the stream. -/
def afterFailure (status : Status) : Call → Stage
  | .release => .ended
  | _ => .rejecting status

end Stage

/-- What arrives at a stream that waits. -/
inductive Incoming where
  | request (request : StreamingPullRequest)
  | woken
  | closed
  | failed (status : Status)

/-- A streaming pull with the broker it runs on and the time. `issued` records every lease
that the stream was handed. -/
structure StreamingPull (β : Type) where
  broker : Broker β
  clock : Int
  first : StreamingPullRequest
  outstanding : ExtTreeMap String Int
  stage : Stage
  issued : List String

/-- The operations of other connections, the passing of time, and the steps of the task: a
request or a wakeup, the lookup of a call, its part under the lock or in the transaction with
the clock reading it took, its failure in the database, what the task does with the answer,
and the receiver taking a response or being gone. The process can stop at any point. -/
inductive StreamEvent where
  | others (event : Event)
  | tick (now : Int)
  | receive (incoming : Incoming)
  | lookup
  | perform (now : Int)
  | fail (status : Status)
  | resume
  | sent (delivered : Bool)
  | stop

variable {β : Type} (codec : BrokerCodec β) (uuid : Nat → String)

/-- The part of the handler before the task. -/
def PubSubService.streamingPull (service : PubSubService β) (first : StreamingPullRequest) :
    Except Status Unit :=
  if first.subscription == "" then
    .error (invalidArgument "first StreamingPull request requires subscription")
  else
    match service.getSubscriptionValue codec first.subscription with
    | .error e => .error e
    | .ok _ =>
      if ¬ (10 ≤ first.streamAckDeadlineSeconds ∧ first.streamAckDeadlineSeconds ≤ 600) then
        .error (invalidArgument "stream_ack_deadline_seconds must be between 10 and 600")
      else .ok ()

namespace StreamingPull

def usedBytes (pull : StreamingPull β) : Int := pull.outstanding.values.sum

/-- An operation of this stream's task. -/
def serve (pull : StreamingPull β) (event : Event) (next : Reply → Stage) : StreamingPull β :=
  { pull with
    broker := pull.broker.step codec uuid event
    stage := next (pull.broker.reply codec uuid event) }

def setStage (pull : StreamingPull β) (stage : Stage) : StreamingPull β := { pull with stage }

/-- The end of the task, which gives its map up. -/
def finish (pull : StreamingPull β) : StreamingPull β :=
  { pull with stage := .ended, outstanding := ∅ }

def receive (pull : StreamingPull β) (incoming : Incoming) : StreamingPull β :=
  match pull.stage with
  | .receiving =>
    pull.setStage <| match incoming with
      | .request request => .handle false request
      | .woken => .calling .activeAckIds
      | .closed => .calling .release
      | .failed status => .rejecting status
  | _ => pull

/-- The lookup of the subscription. Nothing is released when nothing is outstanding. -/
def lookup (pull : StreamingPull β) : StreamingPull β :=
  match pull.stage with
  | .calling .release =>
    if pull.outstanding.isEmpty then pull.finish
    else
      match pull.broker.service.getSubscriptionValue codec pull.first.subscription with
      | .ok _ => pull.setStage (.found .release)
      | .error _ => pull.finish
  | .calling call =>
    match pull.broker.service.getSubscriptionValue codec pull.first.subscription with
    | .ok _ => pull.setStage (.found call)
    | .error e => pull.setStage (.rejecting e)
  | _ => pull

/-- The claim that the outstanding leases leave room for. -/
def claimEvent (pull : StreamingPull β) (now : Int) : Event :=
  .claim pull.first.subscription (min (pull.first.maxMessages - pull.outstanding.size) 100)
    (min (max (pull.first.maxBytes - pull.usedBytes) 0) maxDeliveryMessageBytes)
    pull.first.streamAckDeadlineSeconds now

def afterClaim : Reply → Stage
  | .claimed given => if given.isEmpty then .receiving else .claimed given
  | .refused status => .rejecting status
  | _ => .receiving

def perform (pull : StreamingPull β) (now : Int) : StreamingPull β :=
  match pull.stage with
  | .found (.acknowledge request) =>
    pull.serve codec uuid (.acknowledge pull.first.subscription request.ackIds)
      (Stage.afterReply (.acknowledged request))
  | .found (.modify ackId seconds rest) =>
    pull.serve codec uuid (.modifyAck pull.first.subscription [ackId] seconds now)
      (Stage.afterReply (.modified ackId seconds rest))
  | .found .activeAckIds =>
    pull.setStage (.checked
      (pull.broker.service.activeAckIds pull.first.subscription pull.outstanding.keys now))
  | .found .claim =>
    { pull.serve codec uuid (pull.claimEvent now) afterClaim with
      issued := pull.issued ++ (pull.broker.reply codec uuid (pull.claimEvent now)).ackIds }
  | .found .release =>
    (pull.serve codec uuid
      (.modifyAck pull.first.subscription pull.outstanding.keys 0 now) fun _ => .ended).finish
  | _ => pull

def fail (pull : StreamingPull β) (status : Status) : StreamingPull β :=
  match pull.stage with
  | .calling .release => pull.finish
  | .found .release => pull.finish
  | .calling _ => pull.setStage (.rejecting status)
  | .found _ => pull.setStage (.rejecting status)
  | _ => pull

/-- There is room for another message. -/
def hasRoom (pull : StreamingPull β) : Bool :=
  pull.outstanding.size < pull.first.maxMessages && pull.usedBytes < pull.first.maxBytes

def resume (pull : StreamingPull β) : StreamingPull β :=
  match pull.stage with
  | .acknowledged request =>
    { pull with
      outstanding := request.ackIds.foldl (fun outstanding ack => outstanding.erase ack)
        pull.outstanding
      stage := .afterAcks request }
  | .modified ackId seconds rest =>
    { pull with
      outstanding := if seconds = 0 then pull.outstanding.erase ackId else pull.outstanding
      stage := .modifying rest }
  | .checked active =>
    let kept := { pull with
      outstanding := pull.outstanding.filter fun ackId _ => active.contains ackId }
    kept.setStage (if kept.hasRoom then .calling .claim else .receiving)
  | .claimed given =>
    { pull with
      outstanding := given.foldl (fun outstanding message =>
        outstanding.insert message.ackId message.sizeBytes) pull.outstanding
      stage := .sending }
  | _ => pull

def sent (pull : StreamingPull β) (delivered : Bool) : StreamingPull β :=
  match pull.stage with
  | .sending => pull.setStage (if delivered then .receiving else .calling .release)
  | .rejecting _ => pull.setStage (.calling .release)
  | _ => pull

def step (pull : StreamingPull β) : StreamEvent → StreamingPull β
  | .others event => { pull with broker := pull.broker.step codec uuid event }
  | .tick now => { pull with clock := now }
  | .receive incoming => pull.receive incoming
  | .lookup => pull.lookup codec
  | .perform now => pull.perform codec uuid now
  | .fail status => pull.fail status
  | .resume => pull.resume
  | .sent delivered => pull.sent delivered
  | .stop => pull.finish

end StreamingPull
end FirebaseEmu.Pubsub
