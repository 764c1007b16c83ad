import FirebaseEmu.Functions.Queue

namespace FirebaseEmu.Functions

/-- The most moves of the loop from one receive to the next. -/
def QueueConfig.round (config : QueueConfig) : Nat := 2 * config.burstLimit + 5

namespace Queue

variable {queue : Queue}

/-- The loop makes a move with this step; in any other step it waits or is elsewhere. -/
def moving (queue : Queue) (event : QueueEvent) : Bool :=
  match event, queue.stage with
  | .turn _, .polling => true
  | .settle _, .durable _ => true
  | .poll elapsed, .receiving => elapsed || !queue.channel.isEmpty
  | .poll _, .draining => true
  | .finish _, .dispatching _ => true
  | .complete, .finished _ _ => true
  | .discount, .settling => true
  | _, _ => false

/-- How many moves the loop makes along a run. -/
def moves (config : QueueConfig) (queue : Queue) : List QueueEvent → Nat
  | [] => 0
  | event :: events =>
    (queue.moving event).toNat + moves config (queue.step config event) events

/-- The messages up to and with the `count`-th direct event. -/
def ahead : Nat → List QueueMessage → Nat
  | 0, _ => 0
  | _, [] => 0
  | count + 1, .direct _ :: rest => 1 + ahead count rest
  | count + 1, .durableWake :: rest => 1 + ahead (count + 1) rest

theorem ahead_le (count : Nat) (messages : List QueueMessage) :
    ahead count messages ≤ messages.length := by
  induction messages generalizing count with
  | nil => cases count <;> exact Nat.le_refl _
  | cons message rest ih =>
    cases count with
    | zero => exact Nat.zero_le _
    | succ count =>
      cases message with
      | direct event =>
        have hrest := ih count
        rw [ahead, List.length_cons]
        omega
      | durableWake =>
        have hrest := ih (count + 1)
        rw [ahead, List.length_cons]
        omega

/-- What comes in behind does not move an event back. -/
theorem ahead_append {count : Nat} {messages : List QueueMessage} (more : List QueueMessage)
    (h : count ≤ (directs messages).length) :
    ahead count (messages ++ more) = ahead count messages := by
  induction messages generalizing count with
  | nil =>
    obtain rfl : count = 0 := Nat.le_zero.mp h
    cases more <;> rfl
  | cons message rest ih =>
    cases count with
    | zero => rfl
    | succ count =>
      cases message with
      | direct event =>
        rw [directs, List.length_cons] at h
        rw [List.cons_append, ahead, ahead, ih (by omega)]
      | durableWake => rw [List.cons_append, ahead, ahead, ih h]

/-- The most moves the loop makes before it receives again. -/
def busy (config : QueueConfig) (queue : Queue) : Nat :=
  match queue.stage with
  | .polling => 2 * (config.burstLimit - queue.durableBurst) + 1
  | .durable _ => 2 * (config.burstLimit - queue.durableBurst) + 2
  | .receiving => 0
  | .draining => 0
  | .dispatching _ => 2 * config.burstLimit + 4
  | .finished _ _ => 2 * config.burstLimit + 3
  | .settling => 2 * config.burstLimit + 2

/-- The direct events among the first `count` that are still in the channel. -/
def waiting (count : Nat) (queue : Queue) : Nat :=
  count - queue.handled.length - queue.inHand.length

/-- The most moves until the first `count` accepted events are handled. -/
def distance (config : QueueConfig) (count : Nat) (queue : Queue) : Nat :=
  config.round * ahead (queue.waiting count) queue.channel + queue.busy config

variable {config : QueueConfig} {number : Nat}

theorem moving_turn (claimed : Except String (Option Nat)) :
    queue.moving (.turn claimed) = true ↔ queue.stage = .polling := by
  unfold moving
  cases queue.stage <;> simp

theorem moving_settle (error : Option String) :
    queue.moving (.settle error) = true ↔ ∃ id, queue.stage = .durable id := by
  unfold moving
  cases queue.stage <;> simp

theorem moving_finish (error : Option String) :
    queue.moving (.finish error) = true ↔ ∃ event, queue.stage = .dispatching event := by
  unfold moving
  cases queue.stage <;> simp

theorem moving_complete :
    queue.moving .complete = true ↔ ∃ event handling, queue.stage = .finished event handling := by
  unfold moving
  cases queue.stage <;> simp

theorem moving_discount : queue.moving .discount = true ↔ queue.stage = .settling := by
  unfold moving
  cases queue.stage <;> simp

theorem busy_lt : queue.busy config < config.round := by
  unfold busy QueueConfig.round
  cases queue.stage <;> simp only <;> omega

theorem distance_lt :
    queue.distance config number < config.round * (queue.channel.length + 1) := by
  have hahead := ahead_le (queue.waiting number) queue.channel
  have hbusy : queue.busy config < config.round := busy_lt
  have hmul : config.round * ahead (queue.waiting number) queue.channel ≤
      config.round * queue.channel.length := Nat.mul_le_mul_left _ hahead
  rw [distance, Nat.mul_add, Nat.mul_one]
  omega

theorem Conserved.waiting_le (h : queue.Conserved) (hn : number ≤ queue.accepted.length) :
    queue.waiting number ≤ (directs queue.channel).length := by
  have hlen := congrArg List.length h.accepted
  simp only [List.length_append, List.length_map] at hlen
  rw [waiting]
  omega

/-- The steps of the callers leave the loop where it is, and the events before it. -/
theorem distance_caller (h : queue.Conserved) (hn : number ≤ queue.accepted.length)
    {caller : Queue} (more : List QueueMessage) (hstage : caller.stage = queue.stage)
    (hburst : caller.durableBurst = queue.durableBurst)
    (hhandled : caller.handled = queue.handled) (hchannel : caller.channel = queue.channel ++ more) :
    caller.distance config number = queue.distance config number := by
  have hhand : caller.inHand = queue.inHand := by rw [inHand, inHand, hstage]
  have hwaiting : caller.waiting number = queue.waiting number := by
    rw [waiting, waiting, hhandled, hhand]
  have hbusy : caller.busy config = queue.busy config := by rw [busy, busy, hstage, hburst]
  rw [distance, distance, hwaiting, hbusy, hchannel, ahead_append more (h.waiting_le hn)]

/-- A move that takes no message comes nearer when the loop receives earlier. -/
theorem distance_move {moved : Queue} (hwaiting : moved.waiting number = queue.waiting number)
    (hchannel : moved.channel = queue.channel)
    (hbusy : moved.busy config + 1 ≤ queue.busy config) :
    moved.distance config number + 1 ≤ queue.distance config number := by
  rw [distance, distance, hwaiting, hchannel]
  omega

/-- A move that takes a message comes nearer whatever the loop does with it. -/
theorem distance_receive {received : Queue} {message : QueueMessage} {rest : List QueueMessage}
    (hbefore : queue.channel = message :: rest) (hafter : received.channel = rest)
    (hahead : ahead (queue.waiting number) (message :: rest) =
      1 + ahead (received.waiting number) rest) :
    received.distance config number + 1 ≤ queue.distance config number := by
  have hbusy : received.busy config < config.round := busy_lt
  rw [distance, distance, hbefore, hafter, hahead, Nat.mul_add, Nat.mul_one]
  omega

theorem distance_take (hhand : queue.inHand = []) (hlt : queue.handled.length < number)
    {event : QueuedEvent} {rest : List QueueMessage}
    (hc : queue.channel = .direct event :: rest) :
    (queue.take event rest).distance config number + 1 ≤ queue.distance config number := by
  refine distance_receive hc rfl ?_
  have hbefore : queue.waiting number = (queue.take event rest).waiting number + 1 := by
    rw [waiting, waiting, hhand, take_inHand, List.length_nil, List.length_singleton]
    change number - queue.handled.length - 0 = number - queue.handled.length - 1 + 1
    omega
  rw [hbefore, ahead]

theorem distance_skip (hhand : queue.inHand = []) (hlt : queue.handled.length < number)
    {skipped : Queue} {rest : List QueueMessage}
    (hwaiting : skipped.waiting number = queue.waiting number)
    (hafter : skipped.channel = rest) (hc : queue.channel = .durableWake :: rest) :
    skipped.distance config number + 1 ≤ queue.distance config number := by
  refine distance_receive hc hafter ?_
  have hpos : queue.waiting number = (queue.waiting number - 1) + 1 := by
    rw [waiting, hhand, List.length_nil]
    omega
  rw [hwaiting, hpos, ahead]

theorem Conserved.not_empty (h : queue.Conserved) (hn : number ≤ queue.accepted.length)
    (hhand : queue.inHand = []) (hlt : queue.handled.length < number) : queue.channel ≠ [] := by
  intro hc
  have hwaiting := h.waiting_le hn
  rw [hc, directs, waiting, hhand, List.length_nil] at hwaiting
  omega

theorem distance_turn (claimed : Except String (Option Nat)) :
    (queue.turn config claimed).distance config number + (queue.moving (.turn claimed)).toNat ≤
      queue.distance config number := by
  unfold turn
  split
  · rename_i hs
    have hhand : queue.inHand = [] := by rw [inHand, hs]
    have hbusy : queue.busy config = 2 * (config.burstLimit - queue.durableBurst) + 1 := by
      rw [busy, hs]
    rw [(moving_turn claimed).mpr hs, Bool.toNat_true]
    split
    · rename_i hpolls
      simp only [Bool.and_eq_true, decide_eq_true_eq] at hpolls
      split
      · refine distance_move (by rw [waiting, waiting, hhand]; rfl) rfl ?_
        rw [hbusy]
        change 2 * (config.burstLimit - (queue.durableBurst + 1)) + 2 + 1 ≤ _
        omega
      · refine distance_move (by rw [waiting, waiting, hhand]; rfl) rfl ?_
        rw [hbusy]
        exact Nat.le_add_left _ _
      · refine distance_move (by rw [waiting, waiting, hhand]; rfl) rfl ?_
        rw [hbusy]
        exact Nat.le_add_left _ _
    · refine distance_move ?_ rfl ?_
      · rw [waiting, waiting, hhand]
        cases config.throttled queue.durableBurst <;> rfl
      · rw [hbusy]
        cases config.throttled queue.durableBurst <;> exact Nat.le_add_left _ _
  · rename_i hs
    have hmoving : queue.moving (.turn claimed) = false :=
      Bool.eq_false_iff.mpr fun h => hs ((moving_turn claimed).mp h)
    rw [hmoving]
    exact Nat.le_refl _

theorem distance_settle (error : Option String) :
    (queue.settle error).distance config number + (queue.moving (.settle error)).toNat ≤
      queue.distance config number := by
  unfold settle
  split
  · rename_i id hs
    have hhand : queue.inHand = [] := by rw [inHand, hs]
    rw [(moving_settle error).mpr ⟨id, hs⟩, Bool.toNat_true]
    refine distance_move (by rw [waiting, waiting, hhand]; rfl) rfl ?_
    rw [busy, busy, hs]
  · rename_i hs
    have hmoving : queue.moving (.settle error) = false := by
      refine Bool.eq_false_iff.mpr fun h => ?_
      obtain ⟨id, hid⟩ := (moving_settle error).mp h
      exact hs id hid
    rw [hmoving]
    exact Nat.le_refl _

theorem Conserved.distance_poll (h : queue.Conserved) (hn : number ≤ queue.accepted.length)
    (hlt : queue.handled.length < number) (elapsed : Bool) :
    (queue.poll elapsed).distance config number + (queue.moving (.poll elapsed)).toNat ≤
      queue.distance config number := by
  unfold Queue.poll moving
  cases hs : queue.stage with
  | receiving =>
    have hhand : queue.inHand = [] := by rw [inHand, hs]
    have hempty := h.not_empty hn hhand hlt
    dsimp only
    cases hc : queue.channel with
    | nil => exact absurd hc hempty
    | cons message rest =>
      have hmove : (elapsed || !(message :: rest).isEmpty).toNat = 1 := by simp
      rw [hmove]
      cases message with
      | direct event => exact distance_take hhand hlt hc
      | durableWake =>
        exact distance_skip hhand hlt (by rw [waiting, waiting, hhand]; rfl) rfl hc
  | draining =>
    have hhand : queue.inHand = [] := by rw [inHand, hs]
    have hempty := h.not_empty hn hhand hlt
    dsimp only
    cases hc : queue.channel with
    | nil => exact absurd hc hempty
    | cons message rest =>
      cases message with
      | direct event => exact distance_take hhand hlt hc
      | durableWake => exact distance_skip hhand hlt (by rw [waiting, waiting, hhand]; rfl) rfl hc
  | polling => exact Nat.le_refl _
  | durable id => exact Nat.le_refl _
  | dispatching event => exact Nat.le_refl _
  | finished event handling => exact Nat.le_refl _
  | settling => exact Nat.le_refl _

theorem distance_finish (error : Option String) :
    (queue.finish error).distance config number + (queue.moving (.finish error)).toNat ≤
      queue.distance config number := by
  unfold finish
  split
  · rename_i event hs
    have hhand : queue.inHand = [event] := by rw [inHand, hs]
    rw [(moving_finish error).mpr ⟨event, hs⟩, Bool.toNat_true]
    refine distance_move (by rw [waiting, waiting, hhand]; rfl) rfl ?_
    rw [busy, busy, hs]
  · rename_i hs
    have hmoving : queue.moving (.finish error) = false := by
      refine Bool.eq_false_iff.mpr fun h => ?_
      obtain ⟨event, hevent⟩ := (moving_finish error).mp h
      exact hs event hevent
    rw [hmoving]
    exact Nat.le_refl _

theorem distance_complete :
    queue.complete.distance config number + (queue.moving .complete).toNat ≤
      queue.distance config number := by
  unfold complete
  split
  · rename_i event handling hs
    have hhand : queue.inHand = [event] := by rw [inHand, hs]
    rw [moving_complete.mpr ⟨event, handling, hs⟩, Bool.toNat_true]
    refine distance_move ?_ rfl ?_
    · rw [waiting, waiting, hhand]
      change number - (queue.handled ++ [(event, handling)]).length - 0 = _
      rw [List.length_append, List.length_singleton, List.length_singleton]
      omega
    · rw [busy, busy, hs]
  · rename_i hs
    have hmoving : queue.moving .complete = false := by
      refine Bool.eq_false_iff.mpr fun h => ?_
      obtain ⟨event, handling, hevent⟩ := moving_complete.mp h
      exact hs event handling hevent
    rw [hmoving]
    exact Nat.le_refl _

theorem distance_discount :
    queue.discount.distance config number + (queue.moving .discount).toNat ≤
      queue.distance config number := by
  unfold discount
  split
  · rename_i hs
    have hhand : queue.inHand = [] := by rw [inHand, hs]
    rw [moving_discount.mpr hs, Bool.toNat_true]
    refine distance_move (by rw [waiting, waiting, hhand]; rfl) rfl ?_
    rw [busy, busy, hs]
    change 2 * (config.burstLimit - queue.durableBurst) + 1 + 1 ≤ 2 * config.burstLimit + 2
    omega
  · rename_i hs
    have hmoving : queue.moving .discount = false :=
      Bool.eq_false_iff.mpr fun h => hs (moving_discount.mp h)
    rw [hmoving]
    exact Nat.le_refl _

/-- Each move of the loop comes nearer to the events it has not handled, and no other step
moves them away. -/
theorem Conserved.distance_step (config : QueueConfig) (h : queue.Conserved)
    (hn : number ≤ queue.accepted.length) (hlt : queue.handled.length < number)
    (event : QueueEvent) :
    (queue.step config event).distance config number + (queue.moving event).toNat ≤
      queue.distance config number := by
  cases event with
  | reserve source =>
    exact (distance_caller h hn [] rfl rfl rfl (List.append_nil _).symm).le
  | count id =>
    apply Nat.le_of_eq
    change (queue.count id).distance config number = _
    unfold Queue.count
    split
    · exact distance_caller h hn [] rfl rfl rfl (List.append_nil _).symm
    · rfl
  | send id =>
    apply Nat.le_of_eq
    change (queue.send id).distance config number = _
    unfold Queue.send
    split
    · split
      · exact distance_caller h hn _ rfl rfl rfl rfl
      · exact distance_caller h hn [] rfl rfl rfl (List.append_nil _).symm
    · rfl
  | withdraw id =>
    apply Nat.le_of_eq
    change (queue.withdraw id).distance config number = _
    unfold Queue.withdraw
    split
    · exact distance_caller h hn [] rfl rfl rfl (List.append_nil _).symm
    · rfl
  | wake =>
    apply Nat.le_of_eq
    change queue.wake.distance config number = _
    unfold Queue.wake
    split
    · exact distance_caller h hn _ rfl rfl rfl rfl
    · rfl
  | turn claimed => exact distance_turn claimed
  | settle error => exact distance_settle error
  | poll elapsed => exact h.distance_poll hn hlt elapsed
  | finish error => exact distance_finish error
  | complete => exact distance_complete
  | discount => exact distance_discount

/-- As long as some of the first events are not handled, every move comes nearer to them. -/
theorem Conserved.distance_run (config : QueueConfig) (h : queue.Conserved)
    (hn : number ≤ queue.accepted.length) (events : List QueueEvent)
    (hlt : (queue.run config events).handled.length < number) :
    (queue.run config events).distance config number + queue.moves config events ≤
      queue.distance config number := by
  induction events generalizing queue with
  | nil => exact Nat.le_refl _
  | cons event events ih =>
    have hnext := h.step config event
    have hmore := (accepted_step config event : queue.accepted <+: _).length_le
    have hrun := ih hnext (Nat.le_trans hn hmore) hlt
    have hless : queue.handled.length < number := by
      have hgrow := @handled_run queue config (event :: events)
      exact Nat.lt_of_le_of_lt hgrow.length_le hlt
    have hstep := h.distance_step config hn hless event
    change _ + ((queue.moving event).toNat + _) ≤ _
    change ((queue.step config event).run config events).distance config number + _ ≤ _ at hrun
    change ((queue.step config event).run config events).distance config number + _ ≤ _
    omega

/-- Whatever the other parties do, the loop has handled all that was accepted when it has made
its moves. -/
theorem Conserved.handles (h : queue.Conserved) (events : List QueueEvent)
    (hmoves : config.round * (queue.channel.length + 1) ≤ queue.moves config events) :
    queue.accepted <+: (queue.run config events).handled.map Prod.fst := by
  have hdone : queue.accepted.length ≤ (queue.run config events).handled.length := by
    by_contra hlt
    have hrun := h.distance_run config (Nat.le_refl _) events (Nat.not_le.mp hlt)
    have hfar : queue.distance config queue.accepted.length <
        config.round * (queue.channel.length + 1) := distance_lt
    omega
  have haccepted := (h.run config events).accepted
  rw [List.append_assoc] at haccepted
  apply List.prefix_of_prefix_length_le (accepted_run config events)
  · exact ⟨_, haccepted.symm⟩
  · rwa [List.length_map]

end Queue

/-- The direct events in any interleaving: no event is lost or handled twice, and they are
handled in the order the channel took them; each counter is what it counts, but that an event
is completed one step before it is no longer pending; and the loop gets to every accepted event
after a bounded number of its own moves. -/
theorem direct_events_conserved (config : QueueConfig) (events : List QueueEvent) :
    let queue := Queue.start.run config events
    0 ≤ queue.pending ∧
    queue.pending + queue.handled.length = (queue.accepted.length + queue.counted.length +
      queue.rejected.length + queue.unsettled : Nat) ∧
    queue.accepted =
      queue.handled.map Prod.fst ++ queue.inHand ++ Queue.directs queue.channel ∧
    (queue.accepted.map QueuedEvent.id).Nodup ∧
    queue.completed = queue.handled.length ∧
    ∀ more : List QueueEvent,
      config.round * (queue.channel.length + 1) ≤ queue.moves config more →
        queue.accepted <+: (queue.run config more).handled.map Prod.fst := by
  intro queue
  have h : queue.Conserved := Queue.start_conserved.run config events
  have hnumbered : queue.Numbered := Queue.start_numbered.run config events
  have hpending := h.pending
  refine ⟨by omega, ?_, h.accepted, hnumbered.accepted, h.completed,
    fun more hmoves => h.handles more hmoves⟩
  have haccepted := congrArg List.length h.accepted
  simp only [List.length_append, List.length_map] at haccepted
  omega

/-- Between the two counters an event is completed and still pending. -/
theorem completed_event_still_pending :
    let config : QueueConfig := ⟨false, 32, by decide, by decide⟩
    let queue := Queue.start.run config [.reserve (.schedule "nightly"), .count 1, .send 1,
      .turn (.ok none), .poll false, .finish none, .complete]
    queue.completed = 1 ∧ queue.handled.map (fun entry => entry.1.id) = [1] ∧
    queue.accepted.map QueuedEvent.id = [1] ∧
    queue.pending ≠ (queue.accepted.length - queue.handled.length) +
      (queue.reserved.length + queue.counted.length + queue.rejected.length) := by
  decide

end FirebaseEmu.Functions
