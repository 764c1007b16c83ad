import FirebaseEmu.Pubsub.Selection

namespace FirebaseEmu.Pubsub
open Lib Std

variable {β : Type} {codec : BrokerCodec β} {uuid : Nat → String}

/-- The bytes outstanding keep to the limit, or there is one message, and it alone is larger. -/
def WithinLimit (limit : Int) (outstanding : ExtTreeMap String Int) : Prop :=
  outstanding.values.sum ≤ limit ∨
    ∃ ackId size, outstanding = (∅ : ExtTreeMap String Int).insert ackId size ∧ limit < size

section
variable {limit : Int} {outstanding outstanding' : ExtTreeMap String Int}

theorem withinLimit_empty (hl : 0 ≤ limit) : WithinLimit limit ∅ := by
  have hzero : (∅ : ExtTreeMap String Int).values.sum = 0 := rfl
  exact .inl (hzero.trans_le hl)

/-- What is done with is taken off. -/
theorem WithinLimit.fewer (h : WithinLimit limit outstanding) (hl : 0 ≤ limit)
    (hs : ∀ (ackId : String) (size : Int), outstanding'[ackId]? = some size →
      outstanding[ackId]? = some size)
    (hn : ∀ (ackId : String) (size : Int), outstanding[ackId]? = some size → 0 ≤ size) :
    WithinLimit limit outstanding' := by
  rcases h with hle | ⟨ackId, size, rfl, hlt⟩
  · exact .inl ((sum_values_le hs hn).trans hle)
  · have hone : ∀ (k : String) (v : Int), outstanding'[k]? = some v → ackId = k ∧ size = v := by
      intro k v hk
      have hfound := hs k v hk
      rw [ExtTreeMap.getElem?_insert] at hfound
      split at hfound
      · rename_i he
        exact ⟨LawfulEqOrd.eq_of_compare he, Option.some.inj hfound⟩
      · simp at hfound
    cases ha : outstanding'[ackId]? with
    | none =>
      have hnone : outstanding' = ∅ := by
        apply ExtTreeMap.ext_getElem?
        intro k
        cases hk : outstanding'[k]? with
        | none => simp
        | some v =>
          obtain ⟨rfl, rfl⟩ := hone k v hk
          rw [ha] at hk
          cases hk
      rw [hnone]
      exact withinLimit_empty hl
    | some v =>
      refine .inr ⟨ackId, size, ?_, hlt⟩
      apply ExtTreeMap.ext_getElem?
      intro k
      rw [ExtTreeMap.getElem?_insert]
      split
      · rename_i he
        obtain rfl := LawfulEqOrd.eq_of_compare he
        rw [ha, (hone _ _ ha).2]
      · rename_i hne
        cases hk : outstanding'[k]? with
        | none => simp
        | some v' =>
          exact absurd (by rw [(hone k v' hk).1]; exact ReflOrd.compare_self) hne

theorem foldl_erase_some {ackIds : List String} {ackId : String} {size : Int}
    (h : (ackIds.foldl (fun outstanding ack => outstanding.erase ack) outstanding)[ackId]? =
      some size) : outstanding[ackId]? = some size := by
  induction ackIds generalizing outstanding with
  | nil => exact h
  | cons first ackIds ih =>
    have hrest := ih h
    rw [ExtTreeMap.getElem?_erase] at hrest
    split at hrest
    · cases hrest
    · exact hrest

theorem foldl_insert_some {given : List BrokerMessage} {ackId : String} {size : Int}
    (h : (given.foldl (fun outstanding message =>
      outstanding.insert message.ackId message.sizeBytes) outstanding)[ackId]? = some size) :
    outstanding[ackId]? = some size ∨ ∃ message ∈ given, message.sizeBytes = size := by
  induction given generalizing outstanding with
  | nil => exact .inl h
  | cons message given ih =>
    rcases ih h with hrest | ⟨found, hm, hs⟩
    · rw [ExtTreeMap.getElem?_insert] at hrest
      split at hrest
      · exact .inr ⟨message, List.mem_cons_self, Option.some.inj hrest⟩
      · exact .inl hrest
    · exact .inr ⟨found, List.mem_cons_of_mem _ hm, hs⟩

/-- The bytes of what a claim hands out are added, at most. -/
theorem sum_foldl_insert {given : List BrokerMessage} (hg : ∀ message ∈ given, 0 ≤ message.sizeBytes)
    (hn : ∀ (ackId : String) (size : Int), outstanding[ackId]? = some size → 0 ≤ size) :
    (given.foldl (fun outstanding message =>
      outstanding.insert message.ackId message.sizeBytes) outstanding).values.sum ≤
        outstanding.values.sum + bytesOf given := by
  induction given generalizing outstanding with
  | nil => simp [bytesOf]
  | cons message given ih =>
    rw [List.forall_mem_cons] at hg
    have hinserted : ∀ (ackId : String) (size : Int),
        (outstanding.insert message.ackId message.sizeBytes)[ackId]? = some size → 0 ≤ size := by
      intro ackId size hk
      rw [ExtTreeMap.getElem?_insert] at hk
      split at hk
      · obtain rfl := Option.some.inj hk
        exact hg.1
      · exact hn ackId size hk
    have hrest := ih hg.2 hinserted
    have hone := sum_values_insert outstanding message.ackId message.sizeBytes
    have herased : (outstanding.erase message.ackId).values.sum ≤ outstanding.values.sum := by
      refine sum_values_le (fun k v hk => ?_) hn
      rw [ExtTreeMap.getElem?_erase] at hk
      split at hk
      · cases hk
      · exact hk
    have hcons : bytesOf (message :: given) = message.sizeBytes + bytesOf given := by
      simp [bytesOf]
    rw [List.foldl_cons, hcons]
    omega

end

theorem StreamingPullRequest.maxBytes_pos (first : StreamingPullRequest) : 0 < first.maxBytes := by
  unfold maxBytes maxPendingBytes
  split
  · decide
  · omega

namespace StreamingPull
variable {pull : StreamingPull β}

/-- The bytes that a claim may take. -/
def budget (pull : StreamingPull β) : Int :=
  min (max (pull.first.maxBytes - pull.usedBytes) 0) maxDeliveryMessageBytes

/-- The sizes of the messages that a claim of the task considers. -/
def considered (pull : StreamingPull β) (now : Int) : List Int :=
  pull.broker.service.considered pull.first.subscription
    (min (pull.first.maxMessages - pull.outstanding.size) 100) now

/-- The step is no claim, or one with nothing outstanding, or one that finds nothing, or one
that finds a message for the bytes left. -/
def Fitting (pull : StreamingPull β) : StreamEvent → Prop
  | .perform now => pull.stage = .found .claim →
    pull.outstanding = ∅ ∨ pull.considered now = [] ∨
      ∃ size ∈ pull.considered now, size ≤ pull.budget
  | _ => True

/-- A point at which no claim is under way. -/
def Quiet : Stage → Prop
  | .calling .claim => False
  | .found .claim => False
  | .claimed _ => False
  | _ => True

/-- The invariant of a stream that keeps to its bytes. -/
structure Budgeted (codec : BrokerCodec β) (uuid : Nat → String) (pull : StreamingPull β) :
    Prop where
  settled : pull.broker.Settled codec uuid
  sizes : ∀ (ackId : String) (size : Int), pull.outstanding[ackId]? = some size → 0 ≤ size
  limit : WithinLimit pull.first.maxBytes pull.outstanding
  claiming : pull.stage = .calling .claim ∨ pull.stage = .found .claim →
    pull.usedBytes < pull.first.maxBytes
  claimed : ∀ given, pull.stage = .claimed given → (∀ message ∈ given, 0 ≤ message.sizeBytes) ∧
    (pull.usedBytes + bytesOf given ≤ pull.first.maxBytes ∨ pull.outstanding = ∅ ∧
      ∃ message, given = [message] ∧ pull.first.maxBytes < message.sizeBytes)

/-- The task goes on to a point at which no claim is under way, with no more outstanding. -/
theorem Budgeted.settle (h : pull.Budgeted codec uuid) {pull' : StreamingPull β}
    (hb : pull'.broker.Settled codec uuid) (hf : pull'.first = pull.first)
    (ho : ∀ (ackId : String) (size : Int), pull'.outstanding[ackId]? = some size →
      pull.outstanding[ackId]? = some size)
    (hq : Quiet pull'.stage) : pull'.Budgeted codec uuid where
  settled := hb
  sizes ackId size hs := h.sizes ackId size (ho ackId size hs)
  limit := hf ▸ h.limit.fewer pull.first.maxBytes_pos.le ho h.sizes
  claiming hs := by rcases hs with hs | hs <;> exact (hs ▸ hq).elim
  claimed given hs := (hs ▸ hq).elim

theorem Budgeted.setStage (h : pull.Budgeted codec uuid) {stage : Stage} (hq : Quiet stage) :
    (pull.setStage stage).Budgeted codec uuid :=
  h.settle h.settled rfl (fun _ _ hs => hs) hq

theorem Budgeted.finish (h : pull.Budgeted codec uuid) : pull.finish.Budgeted codec uuid :=
  h.settle h.settled rfl (fun _ _ hs => by simp [StreamingPull.finish] at hs) trivial

theorem quiet_modifying (todo : List (String × Int)) : Quiet (.modifying todo) := by
  cases todo <;> trivial

theorem quiet_handle (firstRequest : Bool) (request : StreamingPullRequest) :
    Quiet (.handle firstRequest request) := by
  unfold Stage.handle
  split
  · trivial
  · split
    · trivial
    · split
      · exact quiet_modifying _
      · trivial

theorem quiet_afterReply {stage : Stage} (hq : Quiet stage) (reply : Reply) :
    Quiet (Stage.afterReply stage reply) := by
  cases reply with
  | refused status => trivial
  | done => exact hq
  | published ids => exact hq
  | claimed given => exact hq

theorem Budgeted.receive (h : pull.Budgeted codec uuid) (incoming : Incoming) :
    (pull.receive incoming).Budgeted codec uuid := by
  unfold StreamingPull.receive
  split
  · refine h.setStage ?_
    cases incoming with
    | request request => exact quiet_handle false request
    | woken => trivial
    | closed => trivial
    | failed status => trivial
  · exact h

theorem Budgeted.lookup (h : pull.Budgeted codec uuid) :
    (pull.lookup codec).Budgeted codec uuid := by
  unfold StreamingPull.lookup
  split
  · split
    · exact h.finish
    · split
      · exact h.setStage trivial
      · exact h.finish
  · rename_i call hrelease hs
    split
    · cases call with
      | claim =>
        exact {
          settled := h.settled
          sizes := h.sizes
          limit := h.limit
          claiming := fun _ => h.claiming (.inl hs)
          claimed := fun given he => by cases he }
      | acknowledge request => exact h.setStage trivial
      | modify ackId seconds rest => exact h.setStage trivial
      | activeAckIds => exact h.setStage trivial
      | release => exact h.setStage trivial
    · exact h.setStage trivial
  · exact h

/-- What a claim adds to the outstanding messages keeps to the limit. -/
theorem Budgeted.picked (h : pull.Budgeted codec uuid) {now : Int}
    (hs : pull.stage = .found .claim) (ha : pull.Fitting (.perform now))
    {given : List BrokerMessage}
    (hp : Picked (min (pull.first.maxMessages - pull.outstanding.size) 100) pull.budget
      (pull.considered now) given) :
    pull.usedBytes + bytesOf given ≤ pull.first.maxBytes ∨ pull.outstanding = ∅ ∧
      ∃ message, given = [message] ∧ pull.first.maxBytes < message.sizeBytes := by
  have hroom := h.claiming (.inr hs)
  have hbudget : pull.budget = min (max (pull.first.maxBytes - pull.usedBytes) 0)
    maxDeliveryMessageBytes := rfl
  rcases hp.bytes with rfl | hle | ⟨message, rfl, hlt, hnone⟩
  · left
    simp only [bytesOf, List.map_nil, List.sum_nil]
    omega
  · left
    omega
  · obtain ⟨hsize, hmax⟩ := hp.sizes message List.mem_cons_self
    rcases ha hs with hempty | hnothing | ⟨size, hm, hfits⟩
    · have hused : pull.usedBytes = 0 := by
        rw [usedBytes, hempty]
        rfl
      refine .inr ⟨hempty, message, rfl, ?_⟩
      omega
    · cases hp.nothing hnothing
    · have hlarge := hnone size hm
      omega

theorem Budgeted.claim (h : pull.Budgeted codec uuid) (hu : Function.Injective uuid) {now : Int}
    (hs : pull.stage = .found .claim) (ha : pull.Fitting (.perform now)) :
    ({ pull.serve codec uuid (pull.claimEvent now) afterClaim with
      issued := pull.issued ++ (pull.broker.reply codec uuid (pull.claimEvent now)).ackIds } :
        StreamingPull β).Budgeted codec uuid := by
  obtain ⟨given, service, hc⟩ := h.settled.sound.claims hu pull.first.subscription
    (min (pull.first.maxMessages - pull.outstanding.size) 100) pull.budget
    pull.first.streamAckDeadlineSeconds now
  have hpicked := h.settled.sound.claim_picked hc
  have hreply : pull.broker.reply codec uuid (pull.claimEvent now) = .claimed given :=
    Broker.reply_claim hc
  have hstage : (pull.serve codec uuid (pull.claimEvent now) afterClaim).stage =
      if given.isEmpty then .receiving else .claimed given := by
    change afterClaim (pull.broker.reply codec uuid (pull.claimEvent now)) = _
    rw [hreply]
    rfl
  constructor
  · exact h.settled.step hu _
  · exact h.sizes
  · exact h.limit
  · rintro (he | he)
    · rw [hstage] at he
      split at he <;> cases he
    · rw [hstage] at he
      split at he <;> cases he
  · intro found he
    rw [hstage] at he
    split at he
    · cases he
    · obtain rfl := Stage.claimed.inj he
      refine ⟨fun message hm => ?_, h.picked hs ha hpicked⟩
      have hsize := (hpicked.sizes message hm).1
      omega

theorem Budgeted.perform (h : pull.Budgeted codec uuid) (hu : Function.Injective uuid) {now : Int}
    (ha : pull.Fitting (.perform now)) : (pull.perform codec uuid now).Budgeted codec uuid := by
  have hstep := fun event => h.settled.step hu event
  unfold StreamingPull.perform
  split
  · rename_i request hs
    exact h.settle (hstep _) rfl (fun _ _ he => he)
      (@quiet_afterReply (.acknowledged request) trivial _)
  · rename_i ackId seconds rest hs
    exact h.settle (hstep _) rfl (fun _ _ he => he)
      (@quiet_afterReply (.modified ackId seconds rest) trivial _)
  · exact h.setStage trivial
  · rename_i hs
    exact h.claim hu hs ha
  · exact h.settle (hstep _) rfl (fun _ _ he => by simp [StreamingPull.finish] at he) trivial
  · exact h

theorem Budgeted.fail (h : pull.Budgeted codec uuid) (status : Status) :
    (pull.fail status).Budgeted codec uuid := by
  unfold StreamingPull.fail
  split
  · exact h.finish
  · exact h.finish
  · exact h.setStage trivial
  · exact h.setStage trivial
  · exact h

/-- The messages handed out are put in the map. -/
theorem Budgeted.insert (h : pull.Budgeted codec uuid) {given : List BrokerMessage}
    (hs : pull.stage = .claimed given) : ({ pull with
      outstanding := given.foldl (fun outstanding message =>
        outstanding.insert message.ackId message.sizeBytes) pull.outstanding
      stage := .sending } : StreamingPull β).Budgeted codec uuid := by
  obtain ⟨hpos, hbytes⟩ := h.claimed given hs
  constructor
  · exact h.settled
  · intro ackId size he
    rcases foldl_insert_some he with hold | ⟨message, hm, rfl⟩
    · exact h.sizes ackId size hold
    · exact hpos message hm
  · rcases hbytes with hle | ⟨hempty, message, rfl, hlt⟩
    · exact .inl ((sum_foldl_insert hpos h.sizes).trans hle)
    · refine .inr ⟨message.ackId, message.sizeBytes, ?_, hlt⟩
      rw [List.foldl_cons, List.foldl_nil, hempty]
  · rintro (he | he) <;> cases he
  · intro found he
    cases he

theorem Budgeted.resume (h : pull.Budgeted codec uuid) :
    (pull.resume).Budgeted codec uuid := by
  unfold StreamingPull.resume
  split
  · exact h.settle h.settled rfl (fun _ _ hs => foldl_erase_some hs) (quiet_modifying _)
  · rename_i ackId seconds rest hs
    refine h.settle h.settled rfl (fun k v hk => ?_) (quiet_modifying _)
    dsimp only at hk
    split at hk
    · rw [ExtTreeMap.getElem?_erase] at hk
      split at hk
      · cases hk
      · exact hk
    · exact hk
  · rename_i active hs
    have hkept : ({ pull with
        outstanding := pull.outstanding.filter fun ackId _ => active.contains ackId
        stage := .receiving } : StreamingPull β).Budgeted codec uuid := by
      refine h.settle h.settled rfl (fun k v hk => ?_) trivial
      rw [ExtTreeMap.getElem?_filter', Option.filter_eq_some_iff] at hk
      exact hk.1
    dsimp only
    split
    · rename_i hroom
      unfold hasRoom at hroom
      rw [Bool.and_eq_true, decide_eq_true_eq, decide_eq_true_eq] at hroom
      exact {
        settled := hkept.settled
        sizes := hkept.sizes
        limit := hkept.limit
        claiming := fun _ => hroom.2
        claimed := fun given he => by cases he }
    · exact hkept
  · rename_i given hs
    exact h.insert hs
  · exact h

theorem Budgeted.sent (h : pull.Budgeted codec uuid) (delivered : Bool) :
    (pull.sent delivered).Budgeted codec uuid := by
  unfold StreamingPull.sent
  split
  · refine h.setStage ?_
    split <;> trivial
  · exact h.setStage trivial
  · exact h

/-- Every step whose claim is fitting keeps the invariant. -/
theorem Budgeted.step (h : pull.Budgeted codec uuid) (hu : Function.Injective uuid)
    {event : StreamEvent} (ha : pull.Fitting event) :
    (pull.step codec uuid event).Budgeted codec uuid := by
  cases event with
  | others event => exact { h with settled := h.settled.step hu event }
  | tick now => exact { h with }
  | receive incoming => exact h.receive incoming
  | lookup => exact h.lookup
  | perform now => exact h.perform hu ha
  | fail status => exact h.fail status
  | resume => exact h.resume
  | sent delivered => exact h.sent delivered
  | stop => exact h.finish

theorem Opened.budgeted (hu : Function.Injective uuid) {first : StreamingPullRequest}
    (h : pull.Opened codec uuid first) : pull.Budgeted codec uuid := by
  obtain ⟨hreach, -, -, hempty, hstage, -⟩ := h
  have hquiet : Quiet pull.stage := hstage ▸ quiet_handle true first
  constructor
  · exact Broker.Settled.reach hu hreach
  · intro ackId size hs
    simp [hempty] at hs
  · rw [hempty]
    exact withinLimit_empty pull.first.maxBytes_pos.le
  · rintro (hs | hs) <;> exact (hs ▸ hquiet).elim
  · intro given hs
    exact (hs ▸ hquiet).elim

/-- A claim that is not fitting takes the stream over its limit, beside what is outstanding. -/
theorem Budgeted.overflow (h : pull.Budgeted codec uuid) (hu : Function.Injective uuid) {now : Int}
    (hs : pull.stage = .found .claim) (hroom : pull.outstanding.size < pull.first.maxMessages)
    (ha : ¬ pull.Fitting (.perform now)) : pull.outstanding ≠ ∅ ∧ ∃ message,
      (pull.perform codec uuid now).stage = .claimed [message] ∧
        pull.first.maxBytes < pull.usedBytes + message.sizeBytes := by
  unfold Fitting at ha
  simp only [hs, forall_const, not_or, not_exists, not_and, Int.not_le] at ha
  obtain ⟨hempty, hsome, hnone⟩ := ha
  obtain ⟨given, service, hc⟩ := h.settled.sound.claims hu pull.first.subscription
    (min (pull.first.maxMessages - pull.outstanding.size) 100) pull.budget
    pull.first.streamAckDeadlineSeconds now
  have hpicked : Picked _ _ (pull.considered now) given := h.settled.sound.claim_picked hc
  have hreply : pull.broker.reply codec uuid (pull.claimEvent now) = .claimed given :=
    Broker.reply_claim hc
  have hne := hpicked.something (by omega) hsome
  have hlarge : ∀ message ∈ given, pull.budget < message.sizeBytes := fun message hm =>
    hnone _ (hpicked.among message hm)
  have hpos : 0 ≤ pull.budget := by
    unfold budget
    omega
  have hone : ∃ message, given = [message] := by
    rcases hpicked.bytes with hnil | hle | ⟨message, he, -⟩
    · exact absurd hnil hne
    · cases given with
      | nil => exact absurd rfl hne
      | cons message given =>
        have hfirst := hlarge message List.mem_cons_self
        have hrest : 0 ≤ bytesOf given := by
          refine List.sum_nonneg fun size hm => ?_
          obtain ⟨found, hf, rfl⟩ := List.mem_map.mp hm
          have hfound := hlarge found (List.mem_cons_of_mem _ hf)
          omega
        have hcons : bytesOf (message :: given) = message.sizeBytes + bytesOf given := by
          simp [bytesOf]
        omega
    · exact ⟨message, he⟩
  obtain ⟨message, rfl⟩ := hone
  refine ⟨hempty, message, ?_, ?_⟩
  · unfold StreamingPull.perform
    rw [hs]
    change afterClaim (pull.broker.reply codec uuid (pull.claimEvent now)) = _
    rw [hreply]
    rfl
  · have hlt := hlarge message List.mem_cons_self
    obtain ⟨hsize, hmax⟩ := hpicked.sizes message List.mem_cons_self
    unfold budget at hlt
    omega

instance (pull : StreamingPull β) : (event : StreamEvent) → Decidable (pull.Fitting event)
  | .perform now => decidable_of_iff (pull.stage = .found .claim →
      pull.outstanding.isEmpty = true ∨ pull.considered now = [] ∨
        ∃ size ∈ pull.considered now, size ≤ pull.budget)
      (by rw [ExtTreeMap.isEmpty_iff]; rfl)
  | .others _ => .isTrue trivial
  | .tick _ => .isTrue trivial
  | .receive _ => .isTrue trivial
  | .lookup => .isTrue trivial
  | .fail _ => .isTrue trivial
  | .resume => .isTrue trivial
  | .sent _ => .isTrue trivial
  | .stop => .isTrue trivial

end StreamingPull

/-- Where every claim of a stream is fitting, the bytes outstanding keep to the limit, or there
is a single message, larger than the limit. -/
theorem stream_within_limit (hu : Function.Injective uuid) {first : StreamingPullRequest}
    {pull : StreamingPull β}
    (h : Reach (StreamingPull.step codec uuid) (fun pull event => pull.Fitting event)
      (StreamingPull.Opened codec uuid first) pull) :
    WithinLimit first.maxBytes pull.outstanding := by
  have hboth : pull.Budgeted codec uuid ∧ pull.first = first := by
    refine h.invariant (I := fun pull => pull.Budgeted codec uuid ∧ pull.first = first)
      (fun pull ho => ⟨ho.budgeted hu, ho.2.2.1⟩) fun pull event hi ha => ⟨hi.1.step hu ha, ?_⟩
    rw [StreamingPull.first_step, hi.2]
  exact hboth.2 ▸ hboth.1.limit

/-- A stream for two messages of no more than eighty bytes together. -/
def wirePull : StreamingPullRequest := ⟨sampleSubscription "sub-one", [], [], [], 10, 2, 80⟩

/-- Two messages of forty-three bytes wait for the stream. -/
def wireStream : StreamingPull Blob where
  broker := [sampleCreateTopic, sampleCreateSubscription "sub-one", samplePublish [1, 2] 0].foldl
    (Broker.step plainCodec wireUuid) ⟨.inMemory, 0⟩
  clock := 0
  first := wirePull
  outstanding := ∅
  stage := .handle true wirePull
  issued := []

theorem wireStream_opened : wireStream.Opened plainCodec wireUuid wirePull := by
  refine ⟨?_, by decide +kernel, rfl, rfl, rfl, rfl⟩
  have hstart : Reach (Broker.step plainCodec wireUuid) (fun _ _ => True) Broker.Empty
      (⟨.inMemory, 0⟩ : Broker Blob) := .start (.inl rfl)
  exact hstart.run (Reach.along_free (fun _ _ => trivial) _ _)

/-- The first claim takes one of the messages. -/
theorem stream_within_limit_sample : WithinLimit wirePull.maxBytes
    (sampleFirstClaim.foldl (StreamingPull.step plainCodec wireUuid) wireStream).outstanding := by
  have hstart : Reach (StreamingPull.step plainCodec wireUuid) (fun pull event => pull.Fitting event)
      (StreamingPull.Opened plainCodec wireUuid wirePull) wireStream := .start wireStream_opened
  exact stream_within_limit wireUuid_injective (hstart.run (by decide +kernel))

/-- A second check and claim. -/
def wireSecondClaim : List StreamEvent :=
  sampleFirstClaim ++
    [.receive .woken, .lookup, .perform 0, .resume, .lookup, .perform 0, .resume]

/-- The second claim has thirty-seven bytes left; it takes the other message all the same. -/
theorem stream_over_limit : ¬ ∀ (codec : BrokerCodec Blob) (uuid : Nat → String),
    Function.Injective uuid → ∀ (first : StreamingPullRequest) (pull : StreamingPull Blob),
      Reach (StreamingPull.step codec uuid) (fun _ _ => True)
        (StreamingPull.Opened codec uuid first) pull → WithinLimit first.maxBytes pull.outstanding := by
  intro h
  have hstart : Reach (StreamingPull.step plainCodec wireUuid) (fun _ _ => True)
      (StreamingPull.Opened plainCodec wireUuid wirePull) wireStream := .start wireStream_opened
  have hwithin := h plainCodec wireUuid wireUuid_injective wirePull _
    (hstart.run (Reach.along_free (fun _ _ => trivial) _ wireSecondClaim))
  have hboth : (wireSecondClaim.foldl (StreamingPull.step plainCodec wireUuid)
      wireStream).outstanding.size = 2 ∧ (wireSecondClaim.foldl (StreamingPull.step plainCodec wireUuid)
        wireStream).outstanding.values.sum = 86 := by
    decide +kernel
  generalize wireSecondClaim.foldl (StreamingPull.step plainCodec wireUuid) wireStream = pull at *
  rcases hwithin with hle | ⟨ackId, size, he, -⟩
  · rw [hboth.2] at hle
    revert hle
    decide
  · have hsize := hboth.1
    rw [he, ExtTreeMap.size_insert] at hsize
    simp at hsize

end FirebaseEmu.Pubsub
