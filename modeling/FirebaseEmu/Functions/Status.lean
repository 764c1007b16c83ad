import FirebaseEmu.Functions.Delivery
import FirebaseEmu.Functions.Queue
import FirebaseEmu.Lib.Machine
import FirebaseEmu.Pubsub.Pending

namespace FirebaseEmu.Functions
open Lib Std
open Pubsub (Broker BrokerCodec)

/-- What `status` reports on: the broker with the deliveries for triggers, the direct events, and
the durable events when there is persistence; and how many trigger deliveries were acknowledged. -/
structure Sources (β π : Type) where
  broker : Broker β
  queue : Queue
  durable : Option (Delivery π)
  triggered : Nat

structure StatusConfig (β : Type) where
  codec : BrokerCodec β
  uuid : Nat → String
  distinct : Function.Injective uuid
  queue : QueueConfig
  triggerSubscriptions : List String

/-- What happens beside `status`. A handler that publishes, writes a document or enqueues an event
is a step of the broker, of the outbox or of the queue; and so is the end of its own event. -/
inductive SourceEvent (π : Type) where
  | broker (event : Pubsub.Event)
  | queue (event : QueueEvent)
  | durable (event : OutboxEvent π)
  | triggered
  | triggerFailed (error : String)

structure Report where
  pending : Int
  completed : Int
  failures : List Failure
  deriving DecidableEq

/-- How far a call of `status` is, with what it holds by then. -/
inductive Progress where
  | begun
  | copied (failures : List Failure)
  | counted (failures : List Failure) (brokerPending : Int)
  | loaded (failures : List Failure) (volatilePending : Int)
  | totalled (failures : List Failure) (volatilePending volatileCompleted : Int)
  | reported (report : Report)

/-- A call of `status`, and the sources as they were at each instant of it. -/
structure Call (β π : Type) where
  progress : Progress
  instants : List (Sources β π)

/-- The sources, and the calls of `status` so far. -/
structure Observed (β π : Type) where
  sources : Sources β π
  calls : List (Call β π)

/-- Something happens to the sources, or a call begins or goes on. `failure` is what comes of a
read of the database when it fails. -/
inductive RuntimeEvent (π : Type) where
  | source (event : SourceEvent π)
  | call
  | advance (index : Nat) (failure : Option String)

variable {β π : Type}

/-- The durable failures of a report. -/
def durableFailures (outbox : Outbox π) : List Failure :=
  ((outbox.rows.toList.filter fun entry => entry.2.state == .failed).take 1000).map fun entry =>
    ⟨some entry.1, entry.2.lastError.getD "delivery failed"⟩

variable (config : StatusConfig β)

def Sources.step (sources : Sources β π) : SourceEvent π → Sources β π
  | .broker event => { sources with broker := sources.broker.step config.codec config.uuid event }
  | .queue event => { sources with queue := sources.queue.step config.queue event }
  | .durable event => { sources with durable := sources.durable.map (Delivery.step · event) }
  | .triggered => { sources with triggered := sources.triggered + 1 }
  | .triggerFailed error =>
    { sources with
      queue := { sources.queue with
        failures := recordFailure sources.queue.failures none error } }

/-- The next read of a call. -/
def Progress.advance (sources : Sources β π) (failure : Option String) : Progress → Progress
  | .begun => .copied sources.queue.failures
  | .copied failures =>
    match sources.broker.service.pendingCount config.triggerSubscriptions failure with
    | .ok value => .counted failures value
    | .error error => .counted (failures ++ [⟨none, "Pub/Sub status: " ++ error⟩]) 0
  | .counted failures brokerPending => .loaded failures (sources.queue.pending + brokerPending)
  | .loaded failures volatilePending =>
    let volatileCompleted : Int := (sources.queue.completed + sources.triggered : Nat)
    match sources.durable with
    | none => .reported ⟨volatilePending, volatileCompleted, failures⟩
    | some _ => .totalled failures volatilePending volatileCompleted
  | .totalled failures volatilePending volatileCompleted =>
    match failure, sources.durable with
    | none, some delivery =>
      .reported ⟨delivery.outbox.outstanding + volatilePending,
        delivery.outbox.completed + volatileCompleted, failures ++ durableFailures delivery.outbox⟩
    | error, _ =>
      .reported ⟨volatilePending, volatileCompleted,
        failures ++ (error.map fun error => ⟨none, error⟩).toList⟩
  | .reported report => .reported report

def Call.report (call : Call β π) : Option Report :=
  match call.progress with
  | .reported report => some report
  | _ => none

/-- A call under way sees one more instant. -/
def Call.see (sources : Sources β π) (call : Call β π) : Call β π :=
  if call.report.isSome then call else { call with instants := call.instants ++ [sources] }

def Observed.step (state : Observed β π) : RuntimeEvent π → Observed β π
  | .source event =>
    let sources := state.sources.step config event
    ⟨sources, state.calls.map (Call.see sources)⟩
  | .call => ⟨state.sources, state.calls ++ [⟨.begun, [state.sources]⟩]⟩
  | .advance index failure =>
    ⟨state.sources, state.calls.modify index fun call =>
      { call with progress := call.progress.advance config state.sources failure }⟩

/-- The loop of `drain` on what its calls of `status` report, the last of them nothing when the time
is over: whether the loop came to an end by itself. -/
def drainLoop : List (Option Report) → Option Bool
  | [] => none
  | none :: _ => some false
  | some report :: rest => if report.pending = 0 then some true else drainLoop rest

/-- `drain`, with the reports after its loop. -/
def drain (polls : List (Option Report)) (second third : Report) : Option (Nat × Report) :=
  match drainLoop polls with
  | none => none
  | some false => some (408, second)
  | some true => some (if second.failures.isEmpty then 200 else 500, third)

/-- No event that was accepted is outstanding. -/
structure Idle (sources : Sources β π) : Prop where
  broker : sources.broker.service.Quiet config.codec config.triggerSubscriptions
  direct : sources.queue.accepted = sources.queue.handled.map Prod.fst
  durable : ∀ delivery, sources.durable = some delivery → delivery.outbox.outstanding = 0

def Call.Truthful (call : Call β π) : Prop :=
  ∀ report, call.report = some report → report.pending = 0 →
    ∃ instant ∈ call.instants, Idle config instant

/-- What holds of the reports. -/
structure StatusLaws (state : Observed β π) : Prop where
  /-- A call that reports nothing pending has come upon an instant with nothing outstanding. -/
  truthful : ∀ call ∈ state.calls, call.Truthful config
  /-- So has one of the calls of a `drain` that succeeds. -/
  drained : ∀ (polls : List (Call β π)) (second third body : Report),
    (∀ call ∈ polls, call ∈ state.calls) →
    drain (polls.map Call.report) second third = some (200, body) →
    ∃ call ∈ polls, ∃ instant ∈ call.instants, Idle config instant

/-- The call has counted the deliveries of the broker, and there is nothing pending so far. -/
def Progress.CountedNothing : Progress → Prop
  | .counted _ pending => pending = 0
  | .loaded _ pending => pending = 0
  | .totalled _ pending _ => pending = 0
  | _ => False

/-- The call has read the counter of direct events as well. -/
def Progress.LoadedNothing : Progress → Prop
  | .loaded _ pending => pending = 0
  | .totalled _ pending _ => pending = 0
  | _ => False

/-- Once a call has found a source empty, nothing is added to it unless nothing is outstanding at
that instant; and no read fails. -/
def Undisturbed (state : Observed β π) : RuntimeEvent π → Prop
  | .source (.broker (.publish topic _ _ _)) =>
    (∃ call ∈ state.calls, call.progress.CountedNothing) → Idle config state.sources ∨
      ∀ subscription ∈ config.triggerSubscriptions,
        (state.sources.broker.service.view config.codec).attached topic subscription = false
  | .source (.queue (.count _)) =>
    (∃ call ∈ state.calls, call.progress.LoadedNothing) → Idle config state.sources
  | .advance _ failure => failure = none
  | _ => True

/-- No read of a call fails. -/
def RuntimeEvent.Reads : RuntimeEvent π → Prop
  | .advance _ failure => failure = none
  | _ => True

/-- The process starts on what stores it has, before the first call. -/
def Started (state : Observed β π) : Prop :=
  Reach (Broker.step config.codec config.uuid) (fun _ _ => True) Broker.Empty
    state.sources.broker ∧ state.sources.queue = .start ∧ state.calls = []

variable {config}

theorem Queue.pending_step_le (queue : Queue) (queueConfig : QueueConfig) {event : QueueEvent}
    (hcount : ∀ id, event ≠ .count id) :
    (queue.step queueConfig event).pending ≤ queue.pending := by
  cases event with
  | reserve source => exact Int.le_refl _
  | count id => exact absurd rfl (hcount id)
  | send id =>
    change (queue.send id).pending ≤ _
    unfold Queue.send
    split
    · split <;> exact Int.le_refl _
    · exact Int.le_refl _
  | withdraw id =>
    change (queue.withdraw id).pending ≤ _
    unfold Queue.withdraw
    split
    · exact Int.sub_le_self _ (by decide)
    · exact Int.le_refl _
  | wake =>
    change (queue.wake).pending ≤ _
    unfold Queue.wake
    split <;> exact Int.le_refl _
  | turn claimed =>
    change (queue.turn queueConfig claimed).pending ≤ _
    unfold Queue.turn
    split
    · split
      · split <;> exact Int.le_refl _
      · exact Int.le_refl _
    · exact Int.le_refl _
  | settle error =>
    change (queue.settle error).pending ≤ _
    unfold Queue.settle
    split <;> exact Int.le_refl _
  | poll elapsed =>
    change (queue.poll elapsed).pending ≤ _
    unfold Queue.poll
    split
    · split
      · exact Int.le_refl _
      · exact Int.le_refl _
      · split <;> exact Int.le_refl _
    · split <;> exact Int.le_refl _
    · exact Int.le_refl _
  | finish error =>
    change (queue.finish error).pending ≤ _
    unfold Queue.finish
    split <;> exact Int.le_refl _
  | complete =>
    change (queue.complete).pending ≤ _
    unfold Queue.complete
    split <;> exact Int.le_refl _
  | discount =>
    change (queue.discount).pending ≤ _
    unfold Queue.discount
    split
    · exact Int.sub_le_self _ (by decide)
    · exact Int.le_refl _

theorem Queue.Conserved.pending_nonneg {queue : Queue} (h : queue.Conserved) :
    0 ≤ queue.pending := by
  rw [h.pending]
  exact Int.natCast_nonneg _

/-- Nothing pending leaves no direct event that was accepted and not handled. -/
theorem Queue.Conserved.settled {queue : Queue} (h : queue.Conserved) (hzero : queue.pending = 0) :
    queue.accepted = queue.handled.map Prod.fst := by
  have hpending := h.pending
  have hhand : queue.inHand = [] := List.length_eq_zero_iff.mp (by omega)
  have hdirects : Queue.directs queue.channel = [] := List.length_eq_zero_iff.mp (by omega)
  rw [h.accepted, hhand, hdirects, List.append_nil, List.append_nil]

/-- What is known of a queue with its broker at any instant. -/
structure Sources.Sound (config : StatusConfig β) (sources : Sources β π) : Prop where
  broker : sources.broker.Sound config.codec config.uuid
  queue : sources.queue.Conserved

variable {sources : Sources β π}

theorem Sources.Sound.step (h : sources.Sound config) (event : SourceEvent π) :
    (sources.step config event).Sound config := by
  cases event with
  | broker event => exact ⟨h.broker.step config.distinct event, h.queue⟩
  | queue event => exact ⟨h.broker, h.queue.step config.queue event⟩
  | durable event => exact ⟨h.broker, h.queue⟩
  | triggered => exact ⟨h.broker, h.queue⟩
  | triggerFailed error =>
    obtain ⟨haccepted, hcompleted, hpending, hcapacity⟩ := h.queue
    exact ⟨h.broker, haccepted, hcompleted, hpending, hcapacity⟩

/-- What a call holds as pending so far. -/
def Progress.pending : Progress → Int
  | .counted _ pending => pending
  | .loaded _ pending => pending
  | .totalled _ pending _ => pending
  | .reported report => report.pending
  | _ => 0

/-- What a call may rely on, with the sources as they are now: a source that it has found empty is
still empty. -/
structure Progress.Faithful (config : StatusConfig β) (sources : Sources β π)
    (progress : Progress) : Prop where
  nonneg : 0 ≤ progress.pending
  counted : progress.CountedNothing →
    sources.broker.service.Quiet config.codec config.triggerSubscriptions
  loaded : progress.LoadedNothing → sources.queue.pending = 0
  reported : ∀ report, progress = .reported report → report.pending ≠ 0

theorem Progress.begun_faithful (sources : Sources β π) :
    Progress.begun.Faithful config sources :=
  ⟨Int.le_refl _, fun hcounted => hcounted.elim, fun hloaded => hloaded.elim, nofun⟩

theorem Progress.reported_faithful {report : Report} (hnonneg : 0 ≤ report.pending)
    (hpending : report.pending ≠ 0) : (Progress.reported report).Faithful config sources := by
  refine ⟨hnonneg, fun hcounted => hcounted.elim, fun hloaded => hloaded.elim, fun other he => ?_⟩
  cases he
  exact hpending

/-- A call has come upon an idle instant, or what it has read can be relied on. -/
structure Call.Sound (config : StatusConfig β) (sources : Sources β π) (call : Call β π) :
    Prop where
  current : call.report = none → sources ∈ call.instants
  faithful : (∃ instant ∈ call.instants, Idle config instant) ∨
    call.progress.Faithful config sources

theorem Call.progress_of_report {call : Call β π} {report : Report}
    (h : call.report = some report) : call.progress = .reported report := by
  unfold Call.report at h
  split at h
  · rename_i hp
    rw [hp, Option.some.inj h]
  · cases h

theorem Call.Sound.truthful {call : Call β π} (h : call.Sound config sources) :
    call.Truthful config := by
  intro report hr hzero
  rcases h.faithful with hidle | hf
  · exact hidle
  · exact absurd hzero (hf.reported report (Call.progress_of_report hr))

/-- Nothing waits in the broker after a step that is allowed, or nothing was outstanding. -/
theorem Sources.Sound.quiet_step (h : sources.Sound config) {calls : List (Call β π)}
    {event : SourceEvent π} (ha : Undisturbed config ⟨sources, calls⟩ (.source event))
    {call : Call β π} (hc : call ∈ calls) (hcounted : call.progress.CountedNothing)
    (hquiet : sources.broker.service.Quiet config.codec config.triggerSubscriptions) :
    Idle config sources ∨ (sources.step config event).broker.service.Quiet config.codec
      config.triggerSubscriptions := by
  cases event with
  | broker event =>
    by_cases hidle : Idle config sources
    · exact .inl hidle
    · right
      apply h.broker.quiet_step config.distinct _ hquiet
      rintro topic messages published publishedMs rfl
      rcases ha ⟨call, hc, hcounted⟩ with hidle' | hheard
      · exact absurd hidle' hidle
      · exact hheard
  | queue event => exact .inr hquiet
  | durable event => exact .inr hquiet
  | triggered => exact .inr hquiet
  | triggerFailed error => exact .inr hquiet

/-- So with the direct events. -/
theorem Sources.Sound.pending_step (h : sources.Sound config) {calls : List (Call β π)}
    {event : SourceEvent π} (ha : Undisturbed config ⟨sources, calls⟩ (.source event))
    {call : Call β π} (hc : call ∈ calls) (hloaded : call.progress.LoadedNothing)
    (hzero : sources.queue.pending = 0) :
    Idle config sources ∨ (sources.step config event).queue.pending = 0 := by
  cases event with
  | broker event => exact .inr hzero
  | durable event => exact .inr hzero
  | triggered => exact .inr hzero
  | triggerFailed error => exact .inr hzero
  | queue event =>
    by_cases hcount : ∃ id, event = .count id
    · obtain ⟨id, rfl⟩ := hcount
      exact .inl (ha ⟨call, hc, hloaded⟩)
    · right
      have hle := sources.queue.pending_step_le config.queue fun id he => hcount ⟨id, he⟩
      have hnonneg := (h.step (.queue event)).queue.pending_nonneg
      have hstep : (sources.step config (.queue event)).queue =
        sources.queue.step config.queue event := rfl
      rw [hstep] at hnonneg ⊢
      omega

/-- What a call relies on outlasts a step that is allowed, unless nothing was outstanding before. -/
theorem Sources.Sound.faithful_step (h : sources.Sound config) {calls : List (Call β π)}
    {event : SourceEvent π} (ha : Undisturbed config ⟨sources, calls⟩ (.source event))
    {call : Call β π} (hc : call ∈ calls) (hf : call.progress.Faithful config sources) :
    Idle config sources ∨ call.progress.Faithful config (sources.step config event) := by
  by_cases hidle : Idle config sources
  · exact .inl hidle
  · right
    refine ⟨hf.nonneg, fun hcounted => ?_, fun hloaded => ?_, hf.reported⟩
    · exact (h.quiet_step ha hc hcounted (hf.counted hcounted)).resolve_left hidle
    · exact (h.pending_step ha hc hloaded (hf.loaded hloaded)).resolve_left hidle

/-- A call sees a step of the sources. -/
theorem Call.Sound.see {call : Call β π} (hcall : call.Sound config sources)
    (h : sources.Sound config) {calls : List (Call β π)} {event : SourceEvent π}
    (ha : Undisturbed config ⟨sources, calls⟩ (.source event)) (hc : call ∈ calls) :
    (call.see (sources.step config event)).Sound config (sources.step config event) := by
  unfold Call.see
  cases hr : call.report with
  | some report =>
    have hp := Call.progress_of_report hr
    refine ⟨fun hnone => ?_, ?_⟩
    · exact absurd (hr.symm.trans hnone) (by simp)
    · rcases hcall.faithful with hidle | hf
      · exact .inl hidle
      · right
        change call.progress.Faithful config _
        rw [hp] at hf ⊢
        exact Progress.reported_faithful hf.nonneg (hf.reported report rfl)
  | none =>
    refine ⟨fun _ => List.mem_append_right _ (List.mem_singleton.mpr rfl), ?_⟩
    have hkept : (∃ instant ∈ call.instants, Idle config instant) →
        ∃ instant ∈ call.instants ++ [sources.step config event], Idle config instant := by
      rintro ⟨instant, hi, hidle⟩
      exact ⟨instant, List.mem_append_left _ hi, hidle⟩
    rcases hcall.faithful with hidle | hf
    · exact .inl (hkept hidle)
    · rcases h.faithful_step ha hc hf with hidle | hf'
      · exact .inl (hkept ⟨sources, hcall.current hr, hidle⟩)
      · exact .inr hf'

theorem pendingCount_ok (service : Pubsub.PubSubService β) (subscriptions : List String) :
    ∃ count, service.pendingCount subscriptions none = .ok count := by
  unfold Pubsub.PubSubService.pendingCount
  split
  · exact ⟨0, rfl⟩
  · split
    · exact ⟨_, rfl⟩
    · exact ⟨_, rfl⟩

/-- Nothing is outstanding when each source is empty. -/
theorem Sources.Sound.idle (h : sources.Sound config)
    (hquiet : sources.broker.service.Quiet config.codec config.triggerSubscriptions)
    (hpending : sources.queue.pending = 0)
    (hdurable : ∀ delivery, sources.durable = some delivery → delivery.outbox.outstanding = 0) :
    Idle config sources :=
  ⟨hquiet, h.queue.settled hpending, hdurable⟩

/-- What the next read of a call can be relied on for, when it succeeds: it ends with something
pending, or now nothing is outstanding. -/
theorem Sources.Sound.advance (h : sources.Sound config) {progress : Progress}
    (hf : progress.Faithful config sources) :
    Idle config sources ∨ (progress.advance config sources none).Faithful config sources := by
  have hnonneg := h.queue.pending_nonneg
  have hheld := hf.nonneg
  cases progress with
  | begun =>
    exact .inr ⟨Int.le_refl _, fun hcounted => hcounted.elim, fun hloaded => hloaded.elim, nofun⟩
  | copied failures =>
    right
    unfold Progress.advance
    obtain ⟨count, hcount⟩ := pendingCount_ok sources.broker.service config.triggerSubscriptions
    rw [hcount]
    refine ⟨Int.natCast_nonneg _, fun hzero => ?_, fun hloaded => hloaded.elim, nofun⟩
    rw [Int.natCast_eq_zero.mp hzero] at hcount
    exact (Pubsub.PubSubService.pendingCount_zero h.broker).mp hcount
  | counted failures brokerPending =>
    right
    have hbroker : 0 ≤ brokerPending := hheld
    refine ⟨Int.add_nonneg hnonneg hbroker, fun hzero => hf.counted ?_, fun hzero => ?_, nofun⟩
    · have hsum : sources.queue.pending + brokerPending = 0 := hzero
      change brokerPending = 0
      omega
    · have hsum : sources.queue.pending + brokerPending = 0 := hzero
      omega
  | loaded failures volatilePending =>
    unfold Progress.advance
    cases hd : sources.durable with
    | some delivery => exact .inr ⟨hheld, hf.counted, hf.loaded, nofun⟩
    | none =>
      by_cases hzero : volatilePending = 0
      · exact .inl (h.idle (hf.counted hzero) (hf.loaded hzero) (by simp [hd]))
      · exact .inr (Progress.reported_faithful hheld hzero)
  | totalled failures volatilePending volatileCompleted =>
    have hvolatile : 0 ≤ volatilePending := hheld
    unfold Progress.advance
    cases hd : sources.durable with
    | some delivery =>
      by_cases hzero : (delivery.outbox.outstanding : Int) + volatilePending = 0
      · have hnone : volatilePending = 0 := by omega
        have houtbox : delivery.outbox.outstanding = 0 := by omega
        exact .inl (h.idle (hf.counted hnone) (hf.loaded hnone) (by simp [hd, houtbox]))
      · exact .inr (Progress.reported_faithful (Int.add_nonneg (Int.natCast_nonneg _) hvolatile) hzero)
    | none =>
      by_cases hzero : volatilePending = 0
      · exact .inl (h.idle (hf.counted hzero) (hf.loaded hzero) (by simp [hd]))
      · exact .inr (Progress.reported_faithful hheld hzero)
  | reported report => exact .inr hf

theorem Call.Sound.advance {call : Call β π} (hcall : call.Sound config sources)
    (h : sources.Sound config) :
    ({ call with progress := call.progress.advance config sources none } : Call β π).Sound config
      sources := by
  cases hr : call.report with
  | some report =>
    have hp := Call.progress_of_report hr
    have hsame : call.progress.advance config sources none = call.progress := by
      rw [hp]
      rfl
    rw [hsame]
    exact hcall
  | none =>
    have hnow := hcall.current hr
    refine ⟨fun _ => hnow, ?_⟩
    rcases hcall.faithful with hidle | hf
    · exact .inl hidle
    · rcases h.advance hf with hidle | hf'
      · exact .inl ⟨sources, hnow, hidle⟩
      · exact .inr hf'

/-- The sources and the calls. -/
structure Observed.Sound (config : StatusConfig β) (state : Observed β π) : Prop where
  sources : state.sources.Sound config
  calls : ∀ call ∈ state.calls, call.Sound config state.sources

theorem Observed.Sound.step {state : Observed β π} (h : state.Sound config)
    {event : RuntimeEvent π} (ha : Undisturbed config state event) :
    (state.step config event).Sound config := by
  cases event with
  | source event =>
    refine ⟨h.sources.step event, List.forall_mem_map.mpr fun call hc => ?_⟩
    exact (h.calls call hc).see h.sources ha hc
  | call =>
    refine ⟨h.sources, fun call hc => ?_⟩
    rcases List.mem_append.mp hc with hc | hc
    · exact h.calls call hc
    · rw [List.mem_singleton.mp hc]
      exact ⟨fun _ => List.mem_singleton.mpr rfl, .inr (Progress.begun_faithful _)⟩
  | advance index failure =>
    obtain rfl : failure = none := ha
    refine ⟨h.sources, fun call hc => ?_⟩
    obtain ⟨position, hposition⟩ := List.mem_iff_getElem?.mp hc
    unfold Observed.step at hposition
    rw [List.getElem?_modify] at hposition
    obtain ⟨old, hold, rfl⟩ := Option.map_eq_some_iff.mp hposition
    have hsound := h.calls old (List.mem_of_getElem? hold)
    split
    · exact hsound.advance h.sources
    · exact hsound

theorem drainLoop_true {polls : List (Option Report)} (h : drainLoop polls = some true) :
    ∃ report, some report ∈ polls ∧ report.pending = 0 := by
  induction polls with
  | nil => cases h
  | cons poll polls ih =>
    cases poll with
    | none => cases h
    | some report =>
      unfold drainLoop at h
      split at h
      · rename_i hzero
        exact ⟨report, List.mem_cons_self, hzero⟩
      · obtain ⟨other, ho, hzero⟩ := ih h
        exact ⟨other, List.mem_cons_of_mem _ ho, hzero⟩

/-- A `drain` succeeds only once a report had nothing pending. -/
theorem drain_ok {polls : List (Option Report)} {second third body : Report}
    (h : drain polls second third = some (200, body)) :
    ∃ report, some report ∈ polls ∧ report.pending = 0 := by
  unfold drain at h
  split at h
  · cases h
  · cases h
  · exact drainLoop_true ‹_›

theorem Observed.Sound.laws {state : Observed β π} (h : state.Sound config) :
    StatusLaws config state := by
  refine ⟨fun call hc => (h.calls call hc).truthful, fun polls second third body hp hd => ?_⟩
  obtain ⟨report, hr, hzero⟩ := drain_ok hd
  obtain ⟨call, hc, hreport⟩ := List.mem_map.mp hr
  exact ⟨call, hc, (h.calls call (hp call hc)).truthful report hreport hzero⟩

/-- In every run in which no source is added to behind the back of a call, whatever else happens
between its reads, a call that reports nothing pending has come upon an idle instant. -/
theorem status_truthful (config : StatusConfig β) {state : Observed β π}
    (h : Reach (Observed.step config) (Undisturbed config) (Started config) state) :
    StatusLaws config state := by
  apply Observed.Sound.laws
  refine Reach.invariant ?_ (fun state event hs ha => hs.step ha) h
  rintro state ⟨hbroker, hqueue, hcalls⟩
  refine ⟨⟨Broker.Sound.reach config.distinct hbroker, ?_⟩, ?_⟩
  · rw [hqueue]
    exact Queue.start_conserved
  · rw [hcalls]
    intro call hc
    cases hc

/-- A broker in memory with one trigger subscription. -/
def sampleStatus : StatusConfig Pubsub.Blob where
  codec := Pubsub.plainCodec
  uuid := Pubsub.sampleUuid
  distinct := Pubsub.sampleUuid_injective
  queue := ⟨false, durableBurstLimit, Nat.succ_pos 31, Nat.le_refl _⟩
  triggerSubscriptions := [Pubsub.sampleSubscription "worker"]

def sampleStart : Observed Pubsub.Blob Unit := ⟨⟨⟨.inMemory, 0⟩, .start, none, 0⟩, []⟩

/-- The trigger is registered; a scheduled event is at its handler. -/
def dispatchingEvents : List (RuntimeEvent Unit) :=
  [.source (.broker Pubsub.sampleCreateTopic),
    .source (.broker (Pubsub.sampleCreateSubscription "worker")),
    .source (.queue (.reserve (.schedule "nightly"))), .source (.queue (.count 1)),
    .source (.queue (.send 1)), .source (.queue (.turn (.ok none))),
    .source (.queue (.poll false))]

/-- The event is done while a call is under way. -/
def calmEvents : List (RuntimeEvent Unit) :=
  [.call, .advance 0 none, .source (.queue (.finish none)), .source (.queue .complete),
    .source (.queue .discount), .advance 0 none, .advance 0 none, .advance 0 none]

/-- Its handler publishes to the trigger's topic once the broker was read. -/
def hiddenEvents : List (RuntimeEvent Unit) :=
  [.call, .advance 0 none, .advance 0 none, .source (.broker (Pubsub.samplePublish [1] 0)),
    .source (.queue (.finish none)), .source (.queue .complete), .source (.queue .discount),
    .advance 0 none, .advance 0 none]

theorem sampleStart_started : Started sampleStatus sampleStart :=
  ⟨.start (.inl rfl), rfl, rfl⟩

theorem status_truthful_calm : StatusLaws sampleStatus
    ((dispatchingEvents ++ calmEvents).foldl (Observed.step sampleStatus) sampleStart) := by
  have hstart : Reach (Observed.step sampleStatus) (Undisturbed sampleStatus)
      (Started sampleStatus) sampleStart := .start sampleStart_started
  refine status_truthful sampleStatus (hstart.run ?_)
  refine ⟨trivial, trivial, trivial, ?_, trivial, trivial, trivial, trivial, rfl, trivial, trivial,
    trivial, rfl, rfl, rfl, trivial⟩
  rintro ⟨call, hc, -⟩
  cases hc

/-- The message is counted neither before it is published nor after, and the event that published
it is done by the time the direct events are counted. -/
theorem status_hides_published :
    ¬ ∀ (config : StatusConfig Pubsub.Blob) (state : Observed Pubsub.Blob Unit),
      Reach (Observed.step config) (fun _ event => event.Reads) (Started config) state →
        StatusLaws config state := by
  intro h
  have hstart : Reach (Observed.step sampleStatus) (fun _ event => event.Reads)
      (Started sampleStatus) sampleStart := .start sampleStart_started
  have halong : Reach.Along (Observed.step sampleStatus) (fun _ event => event.Reads) sampleStart
      (dispatchingEvents ++ hiddenEvents) :=
    ⟨trivial, trivial, trivial, trivial, trivial, trivial, trivial, trivial, rfl, rfl, trivial,
      trivial, trivial, trivial, rfl, rfl, trivial⟩
  have hreported : (((dispatchingEvents ++ hiddenEvents).foldl (Observed.step sampleStatus)
      sampleStart).calls.map Call.report) = [some ⟨0, 1, []⟩] := by decide +kernel
  have hbusy : ∀ call ∈ ((dispatchingEvents ++ hiddenEvents).foldl (Observed.step sampleStatus)
      sampleStart).calls, ∀ instant ∈ call.instants,
        instant.queue.accepted.length ≠ instant.queue.handled.length ∨
          ((instant.broker.service.view Pubsub.plainCodec).board
            (Pubsub.sampleSubscription "worker") (Pubsub.sampleUuid 0)).isSome = true := by
    decide +kernel
  have hlaws := h sampleStatus _ (hstart.run halong)
  generalize (dispatchingEvents ++ hiddenEvents).foldl (Observed.step sampleStatus) sampleStart =
    state at hreported hbusy hlaws
  have hcall : some ⟨0, 1, []⟩ ∈ state.calls.map Call.report := by
    rw [hreported]
    exact List.mem_singleton.mpr rfl
  obtain ⟨call, hc, hr⟩ := List.mem_map.mp hcall
  obtain ⟨instant, hi, hquiet, hdirect, -⟩ := hlaws.truthful call hc _ hr rfl
  rcases hbusy call hc instant hi with hevents | hmessage
  · apply hevents
    rw [hdirect, List.length_map]
  · have hnone := hquiet (Pubsub.sampleSubscription "worker") (List.mem_singleton.mpr rfl)
      (Pubsub.sampleUuid 0)
    change (instant.broker.service.view Pubsub.plainCodec).board _ _ = none at hnone
    rw [hnone] at hmessage
    cases hmessage

end FirebaseEmu.Functions
