import FirebaseEmu.Firestore.Durable
import FirebaseEmu.Firestore.Tokens
import FirebaseEmu.Lib.Machine

namespace FirebaseEmu.Firestore
open Lib Std

/-- Where the future of a commit waits: for the store lock, for room in the writer's
queue, for the writer, or to be polled with the writer's answer. -/
inductive CommitStage where
  | locking
  | sending
  | waiting
  | answered (outcome : Except Status (List WriteResult))

/-- A commit with the clock reading it took on arrival. -/
structure CommitCall where
  request : CommitRequest
  commitTime : Timestamp

/-- The service with the commits under way. A job in the queue carries what its commit
asked for. `committed` and `notified` list the commits the writer has committed and those
that have sent their notification, and `drawn` all tokens that were ever active. -/
structure Commits (β : Type) where
  service : FirestoreService β
  holder : Option Nat
  queue : List (Nat × CommitCall)
  inProgress : Nat → Option (CommitCall × CommitStage)
  next : Nat
  committed : List (Nat × CommitCall)
  notified : List Nat
  drawn : List Bytes

/-- What happens: a commit arrives, takes the lock, sends its job and receives the answer;
the writer runs a job; the future of a commit is dropped; another request is served. -/
inductive CommitEvent where
  | arrive (call : CommitCall)
  | lock (id : Nat)
  | send (id : Nat)
  | write
  | receive (id : Nat)
  | drop (id : Nat)
  | other (call : Call)

def writerQueueCapacity : Nat := 128

/-- On the SQLite backend only these leave the store lock alone. -/
def Request.takesStoreLock : Request → Bool
  | .createDocument _ | .updateDocument _ | .deleteDocument _ | .batchWrite _ => false
  | _ => true

variable {β : Type} (codec : DocumentCodec β)

namespace Commits

def start (service : FirestoreService β) : Commits β :=
  ⟨service, none, [], fun _ => none, 0, [], [], service.store.transactions.keys⟩

def setStage (s : Commits β) (id : Nat) (call : CommitCall) (stage : CommitStage) : Commits β :=
  { s with inProgress := Function.update s.inProgress id (some (call, stage)) }

/-- The future is gone, and with it the guard of the lock. -/
def finish (s : Commits β) (id : Nat) : Commits β :=
  { s with
    inProgress := Function.update s.inProgress id none
    holder := if s.holder = some id then none else s.holder }

/-- The checks a commit makes before it sends its job. -/
def check (s : Commits β) (call : CommitCall) : Except Status Unit := do
  checkTransaction s.service.store call.request.database call.request.transaction
  validateWritesDatabase call.request.database call.request.writes

/-- What the writer makes of a job. -/
def outcome (p : Persistence β) (call : CommitCall) : Except Status (List WriteResult) :=
  (persistentWrites codec p call.request.database call.request.writes false call.commitTime).1.map
    Prod.fst

def step (s : Commits β) : CommitEvent → Commits β
  | .arrive call => { s.setStage s.next call .locking with next := s.next + 1 }
  | .lock id =>
    match s.inProgress id, s.holder with
    | some (call, .locking), none =>
      match s.check call with
      | .error _ => s.finish id
      | .ok () => { s.setStage id call .sending with holder := some id }
    | _, _ => s
  | .send id =>
    match s.inProgress id with
    | some (call, .sending) =>
      if s.queue.length < writerQueueCapacity then
        { s.setStage id call .waiting with queue := s.queue ++ [(id, call)] }
      else s
    | _ => s
  | .write =>
    match s.queue, s.service.persistence with
    | (id, call) :: queue, some p =>
      let written := persistentWrites codec p call.request.database call.request.writes false
        call.commitTime
      let committed := match written.1 with
        | .ok _ => (id, call) :: s.committed
        | .error _ => s.committed
      let s := { s with service := s.service.setPersistence written.2, queue, committed }
      -- the receiver of the answer may be gone
      match s.inProgress id with
      | some _ => s.setStage id call (.answered (outcome codec p call))
      | none => s
    | _, _ => s
  | .receive id =>
    match s.inProgress id with
    | some (_, .answered (.error _)) => s.finish id
    | some (call, .answered (.ok _)) =>
      { s.finish id with
        service := s.service.notify.setStore
          (removeTransaction s.service.store call.request.transaction)
        notified := id :: s.notified }
    | _ => s
  | .drop id => s.finish id
  | .other call =>
    match call.request with
    | .commit _ => s
    | request =>
      if request.takesStoreLock && s.holder.isSome then s
      else { s with
        service := (handle codec s.service call).2
        drawn := if call.issued.isSome then call.uuid :: s.drawn else s.drawn }

/-- The token is not an active one. -/
def Spent (s : Commits β) (token : Bytes) : Prop :=
  token ≠ [] → s.service.store.transactions[token]? = none

/-- Every committed commit that is no longer in progress has spent its token and sent its
notification, and no token was committed twice. -/
structure Finished (s : Commits β) : Prop where
  finished : ∀ id call, (id, call) ∈ s.committed → s.inProgress id = none →
    id ∈ s.notified ∧ s.Spent call.request.transaction
  once : s.committed.Pairwise fun later earlier => later.2.request.transaction ≠ [] →
    later.2.request.transaction ≠ earlier.2.request.transaction

/-- The identifier drawn for a token is a new one. -/
def FreshDraw (s : Commits β) : CommitEvent → Prop
  | .other call => call.issued.isSome → call.uuid ∉ s.drawn
  | _ => True

/-- No commit is dropped between the commit of its job and its end, and the writer commits
no job whose commit was dropped before. -/
def NoDrop (s : Commits β) : CommitEvent → Prop
  | .drop id => ∀ call results, s.inProgress id ≠ some (call, .answered (.ok results))
  | .write => ∀ id call queue p, s.queue = (id, call) :: queue →
    s.service.persistence = some p → s.inProgress id = none →
    ∃ status, outcome codec p call = .error status
  | _ => True

/-- The lock guards the token of the commit that holds it, and a committed commit is still
to be answered or has ended. -/
structure Orderly (s : Commits β) : Prop where
  locked : ∀ id call stage, s.inProgress id = some (call, stage) → stage = .locking ∨
    s.holder = some id ∧
      checkTransaction s.service.store call.request.database call.request.transaction = .ok ()
  below : ∀ id, s.next ≤ id → s.inProgress id = none
  queued : ∀ id call, (id, call) ∈ s.queue → ∀ call' stage,
    s.inProgress id = some (call', stage) → call' = call ∧ stage = .waiting
  queuedBelow : ∀ id call, (id, call) ∈ s.queue → id < s.next
  distinct : (s.queue.map Prod.fst).Nodup
  committedBelow : ∀ id call, (id, call) ∈ s.committed → id < s.next
  finished : ∀ id call, (id, call) ∈ s.committed →
    (∃ results, s.inProgress id = some (call, .answered (.ok results))) ∨
      s.inProgress id = none ∧ id ∈ s.notified ∧ s.Spent call.request.transaction
  once : s.committed.Pairwise fun later earlier => later.2.request.transaction ≠ [] →
    later.2.request.transaction ≠ earlier.2.request.transaction
  tokens : ∀ token database, s.service.store.transactions[token]? = some database →
    token ∈ s.drawn
  committedDrawn : ∀ id call, (id, call) ∈ s.committed → call.request.transaction ≠ [] →
    call.request.transaction ∈ s.drawn

theorem Orderly.done {s : Commits β} (h : s.Orderly) : s.Finished := by
  refine ⟨fun id call hm hnone => ?_, h.once⟩
  rcases h.finished id call hm with ⟨results, ha⟩ | ⟨-, hn, hs⟩
  · rw [hnone] at ha
    cases ha
  · exact ⟨hn, hs⟩

theorem orderly_start (service : FirestoreService β) : (start service).Orderly where
  locked := by simp [start]
  below := by simp [start]
  queued := by simp [start]
  queuedBelow := by simp [start]
  distinct := by simp [start]
  committedBelow := by simp [start]
  finished := by simp [start]
  once := by simp [start]
  tokens := by
    intro token database ht
    simp only [start, ExtTreeMap.mem_keys]
    rw [ExtTreeMap.mem_iff_isSome_getElem?]
    exact Option.isSome_of_eq_some ht
  committedDrawn := by simp [start]

section Steps
variable {s : Commits β}

/-- Only one commit is past the lock. -/
theorem Orderly.holder_eq (h : s.Orderly) {id : Nat} {call : CommitCall} {stage : CommitStage}
    (hp : s.inProgress id = some (call, stage)) (hs : stage ≠ .locking) : s.holder = some id := by
  rcases h.locked id call stage hp with he | ⟨hh, -⟩
  · exact absurd he hs
  · exact hh

theorem checkTransaction_ok {store : Store} {database : String} {token : Bytes}
    (h : checkTransaction store database token = .ok ()) (ht : token ≠ []) :
    store.transactions[token]? = some database := by
  rw [checkTransaction, if_neg ht] at h
  exact validateTransaction_iff.mp h

/-- A future that ends before the writer has committed its job. -/
theorem Orderly.finish (h : s.Orderly) {id : Nat}
    (hn : ∀ call results, s.inProgress id ≠ some (call, .answered (.ok results))) :
    (s.finish id).Orderly where
  locked := by
    intro j call stage hp
    by_cases hj : j = id
    · subst hj
      simp [Commits.finish] at hp
    · simp only [Commits.finish, Function.update_of_ne hj] at hp ⊢
      rcases h.locked j call stage hp with he | ⟨hh, hc⟩
      · exact .inl he
      · refine .inr ⟨?_, hc⟩
        rw [hh, if_neg]
        simpa using hj
  below := by
    intro j hj
    by_cases he : j = id
    · subst he
      simp [Commits.finish]
    · simp only [Commits.finish, Function.update_of_ne he]
      exact h.below j hj
  queued := by
    intro j call hm call' stage hp
    by_cases hj : j = id
    · subst hj
      simp [Commits.finish] at hp
    · simp only [Commits.finish, Function.update_of_ne hj] at hp
      exact h.queued j call hm call' stage hp
  queuedBelow := h.queuedBelow
  distinct := h.distinct
  committedBelow := h.committedBelow
  finished := by
    intro j call hm
    by_cases hj : j = id
    · subst hj
      rcases h.finished j call hm with ⟨results, ha⟩ | ⟨-, hrest⟩
      · exact absurd ha (hn call results)
      · exact .inr ⟨by simp [Commits.finish], hrest⟩
    · simp only [Commits.finish, Function.update_of_ne hj]
      exact h.finished j call hm
  once := h.once
  tokens := h.tokens
  committedDrawn := h.committedDrawn

/-- A commit arrives. -/
theorem Orderly.arrive (h : s.Orderly) (call : CommitCall) :
    (s.step codec (.arrive call)).Orderly where
  locked := by
    intro j call' stage hp
    by_cases hj : j = s.next
    · subst hj
      simp only [step, setStage, Function.update_self, Option.some.injEq, Prod.mk.injEq] at hp
      exact .inl hp.2.symm
    · simp only [step, setStage, Function.update_of_ne hj] at hp ⊢
      exact h.locked j call' stage hp
  below := by
    intro j hj
    simp only [step, setStage] at hj ⊢
    rw [Function.update_of_ne (by omega)]
    exact h.below j (by omega)
  queued := by
    intro j call' hm call'' stage hp
    have hj := h.queuedBelow j call' hm
    simp only [step, setStage, Function.update_of_ne (Nat.ne_of_lt hj)] at hp
    exact h.queued j call' hm call'' stage hp
  queuedBelow := fun j call' hm => Nat.lt_succ_of_lt (h.queuedBelow j call' hm)
  distinct := h.distinct
  committedBelow := fun j call' hm => Nat.lt_succ_of_lt (h.committedBelow j call' hm)
  finished := by
    intro j call' hm
    have hj := h.committedBelow j call' hm
    simp only [step, setStage, Function.update_of_ne (Nat.ne_of_lt hj)]
    exact h.finished j call' hm
  once := h.once
  tokens := h.tokens
  committedDrawn := h.committedDrawn

/-- A commit moves on to a stage that is not an answer. -/
theorem Orderly.setStage (h : s.Orderly) {id : Nat} {call : CommitCall} {stage : CommitStage}
    {stage' : CommitStage} (hp : s.inProgress id = some (call, stage))
    (hstage : ∀ outcome, stage ≠ .answered outcome) (hqueue : ∀ call, (id, call) ∉ s.queue)
    (hheld : s.holder = some id ∨ s.holder = none)
    (hcheck : checkTransaction s.service.store call.request.database call.request.transaction =
      .ok ()) :
    ({ s.setStage id call stage' with holder := some id } : Commits β).Orderly where
  locked := by
    intro j call' other hj
    by_cases he : j = id
    · subst he
      simp only [Commits.setStage, Function.update_self, Option.some.injEq, Prod.mk.injEq] at hj
      obtain ⟨rfl, -⟩ := hj
      exact .inr ⟨rfl, hcheck⟩
    · simp only [Commits.setStage, Function.update_of_ne he] at hj
      rcases h.locked j call' other hj with hl | ⟨hh, -⟩
      · exact .inl hl
      · rcases hheld with hi | hi <;> rw [hh] at hi
        · exact absurd (Option.some.inj hi) he
        · cases hi
  below := by
    intro j hj
    have he : j ≠ id := by
      rintro rfl
      rw [h.below j hj] at hp
      cases hp
    simp only [Commits.setStage, Function.update_of_ne he]
    exact h.below j hj
  queued := by
    intro j call' hm call'' other hj
    have he : j ≠ id := by
      rintro rfl
      exact hqueue call' hm
    simp only [Commits.setStage, Function.update_of_ne he] at hj
    exact h.queued j call' hm call'' other hj
  queuedBelow := h.queuedBelow
  distinct := h.distinct
  committedBelow := h.committedBelow
  finished := by
    intro j call' hm
    have he : j ≠ id := by
      rintro rfl
      rcases h.finished j call' hm with ⟨results, ha⟩ | ⟨hn, -⟩
      · rw [ha] at hp
        exact hstage _ (Prod.mk.inj (Option.some.inj hp)).2.symm
      · rw [hn] at hp
        cases hp
    simp only [Commits.setStage, Function.update_of_ne he]
    exact h.finished j call' hm
  once := h.once
  tokens := h.tokens
  committedDrawn := h.committedDrawn

/-- A commit takes the lock, or is refused by its checks. -/
theorem Orderly.lock (h : s.Orderly) (id : Nat) : (s.step codec (.lock id)).Orderly := by
  unfold step
  dsimp only
  split
  · rename_i call hp hh
    have hnone : ∀ call' results, s.inProgress id ≠ some (call', .answered (.ok results)) := by
      intro call' results he
      rw [hp] at he
      cases he
    split
    · exact h.finish hnone
    · rename_i hc
      obtain ⟨⟨⟩, hcheck, -⟩ := exceptBind_eq_ok.mp hc
      refine h.setStage hp (by simp) (fun call' hm => ?_) (.inr hh) hcheck
      cases (h.queued id call' hm call .locking hp).2
  · exact h

/-- A job joins the queue. -/
theorem Orderly.enqueue (h : s.Orderly) {id : Nat} {call : CommitCall}
    (hp : s.inProgress id = some (call, .waiting)) (hqueue : ∀ call, (id, call) ∉ s.queue) :
    ({ s with queue := s.queue ++ [(id, call)] } : Commits β).Orderly where
  locked := h.locked
  below := h.below
  queued := by
    intro j call' hm call'' stage hj
    rcases List.mem_append.mp hm with hm | hm
    · exact h.queued j call' hm call'' stage hj
    · obtain ⟨rfl, rfl⟩ := Prod.mk.inj (List.mem_singleton.mp hm)
      obtain ⟨rfl, rfl⟩ := Prod.mk.inj (Option.some.inj (hp.symm.trans hj))
      exact ⟨rfl, rfl⟩
  queuedBelow := by
    intro j call' hm
    rcases List.mem_append.mp hm with hm | hm
    · exact h.queuedBelow j call' hm
    · obtain ⟨rfl, rfl⟩ := Prod.mk.inj (List.mem_singleton.mp hm)
      by_contra hn
      rw [h.below j (Nat.le_of_not_lt hn)] at hp
      cases hp
  distinct := by
    show ((s.queue ++ [(id, call)]).map Prod.fst).Nodup
    rw [List.map_append, List.nodup_append]
    refine ⟨h.distinct, by simp, fun j hj k hk => ?_⟩
    obtain ⟨⟨j, call'⟩, hm, rfl⟩ := List.mem_map.mp hj
    obtain rfl := List.mem_singleton.mp hk
    rintro rfl
    exact hqueue call' hm
  committedBelow := h.committedBelow
  finished := h.finished
  once := h.once
  tokens := h.tokens
  committedDrawn := h.committedDrawn

/-- A commit sends its job. -/
theorem Orderly.send (h : s.Orderly) (id : Nat) : (s.step codec (.send id)).Orderly := by
  unfold step
  dsimp only
  split
  · rename_i call hp
    split
    · have hqueue : ∀ call, (id, call) ∉ s.queue := by
        intro call' hm
        cases (h.queued id call' hm call .sending hp).2
      have hheld := h.holder_eq hp (by simp)
      have hcheck : checkTransaction s.service.store call.request.database
          call.request.transaction = .ok () := by
        rcases h.locked id call .sending hp with he | ⟨-, hc⟩
        · cases he
        · exact hc
      have hs := @setStage _ s h id call .sending .waiting hp (by simp) hqueue (.inl hheld) hcheck
      rw [← hheld] at hs
      exact hs.enqueue (Function.update_self ..) hqueue
    · exact h
  · exact h

/-- The writer takes a job from the queue, with its answer for a commit that still waits. -/
theorem Orderly.dequeue (h : s.Orderly) {id : Nat} {call : CommitCall}
    {queue : List (Nat × CommitCall)} (hq : s.queue = (id, call) :: queue)
    (service : FirestoreService β) (hservice : service.store = s.service.store)
    (inProgress : Nat → Option (CommitCall × CommitStage))
    (hother : ∀ j, j ≠ id → inProgress j = s.inProgress j)
    (hanswer : ∀ call' stage, inProgress id = some (call', stage) → call' = call ∧
      s.inProgress id = some (call, .waiting)) :
    ({ s with service, queue, inProgress } : Commits β).Orderly where
  locked := by
    intro j call' stage hj
    show _ ∨ s.holder = some j ∧ checkTransaction service.store _ _ = _
    rw [hservice]
    by_cases he : j = id
    · subst he
      obtain ⟨rfl, hp⟩ := hanswer call' stage hj
      rcases h.locked j call' .waiting hp with hl | hl
      · cases hl
      · exact .inr hl
    · exact h.locked j call' stage (hother j he ▸ hj)
  below := by
    intro j hj
    have hlt := h.queuedBelow id call (by rw [hq]; exact List.mem_cons_self)
    have he : j ≠ id := by
      rintro rfl
      exact absurd hj (Nat.not_le_of_lt hlt)
    exact (hother j he).trans (h.below j hj)
  queued := by
    intro j call' hm call'' stage hj
    have hd := h.distinct
    rw [hq, List.map_cons, List.nodup_cons] at hd
    have he : j ≠ id := by
      rintro rfl
      exact hd.1 (List.mem_map.mpr ⟨(j, call'), hm, rfl⟩)
    exact h.queued j call' (by rw [hq]; exact List.mem_cons_of_mem _ hm) call'' stage
      (hother j he ▸ hj)
  queuedBelow := fun j call' hm =>
    h.queuedBelow j call' (by rw [hq]; exact List.mem_cons_of_mem _ hm)
  distinct := by
    have hd := h.distinct
    rw [hq, List.map_cons, List.nodup_cons] at hd
    exact hd.2
  committedBelow := h.committedBelow
  finished := by
    intro j call' hm
    have hspent : s.Spent call'.request.transaction →
        Spent { s with service, queue, inProgress } call'.request.transaction := by
      intro hs ht
      exact (congrArg (·.transactions[call'.request.transaction]?) hservice).trans (hs ht)
    by_cases he : j = id
    · subst he
      rcases h.finished j call' hm with ⟨results, ha⟩ | ⟨hnone, hn, hs⟩
      · cases (h.queued j call (by rw [hq]; exact List.mem_cons_self) _ _ ha).2
      · refine .inr ⟨?_, hn, hspent hs⟩
        cases hp : inProgress j with
        | none => exact hp
        | some progress =>
          obtain ⟨-, hw⟩ := hanswer progress.1 progress.2 hp
          rw [hnone] at hw
          cases hw
    · rcases h.finished j call' hm with ⟨results, ha⟩ | ⟨hnone, hn, hs⟩
      · exact .inl ⟨results, (hother j he).trans ha⟩
      · exact .inr ⟨(hother j he).trans hnone, hn, hspent hs⟩
  once := h.once
  tokens := by
    intro token database ht
    exact h.tokens token database (hservice ▸ ht)
  committedDrawn := h.committedDrawn

/-- The writer has committed the job of a commit that waits for its answer. -/
theorem Orderly.commit (h : s.Orderly) {id : Nat} {call : CommitCall}
    {results : List WriteResult} (hp : s.inProgress id = some (call, .answered (.ok results)))
    (hnew : ∀ call, (id, call) ∉ s.committed) :
    ({ s with committed := (id, call) :: s.committed } : Commits β).Orderly where
  locked := h.locked
  below := h.below
  queued := h.queued
  queuedBelow := h.queuedBelow
  distinct := h.distinct
  committedBelow := by
    refine fun j call' hm => ?_
    rcases List.mem_cons.mp hm with he | hm
    · obtain ⟨rfl, rfl⟩ := Prod.mk.inj he
      by_contra hn
      rw [h.below j (Nat.le_of_not_lt hn)] at hp
      cases hp
    · exact h.committedBelow j call' hm
  finished := by
    intro j call' hm
    rcases List.mem_cons.mp hm with he | hm
    · obtain ⟨rfl, rfl⟩ := Prod.mk.inj he
      exact .inl ⟨results, hp⟩
    · exact h.finished j call' hm
  once := by
    refine List.pairwise_cons.mpr ⟨fun earlier hm ht heq => ?_, h.once⟩
    obtain ⟨j, call'⟩ := earlier
    rcases h.locked id call _ hp with he | ⟨hheld, hcheck⟩
    · cases he
    rcases h.finished j call' hm with ⟨results', ha⟩ | ⟨-, -, hs⟩
    · have hj := h.holder_eq ha (by simp)
      obtain rfl := Option.some.inj (hheld.symm.trans hj)
      exact hnew call' hm
    · have hnone := hs (heq ▸ ht)
      have hactive := checkTransaction_ok hcheck ht
      dsimp only at heq
      rw [heq, hnone] at hactive
      cases hactive
  tokens := h.tokens
  committedDrawn := by
    intro j call' hm ht
    rcases List.mem_cons.mp hm with he | hm
    · obtain ⟨rfl, rfl⟩ := Prod.mk.inj he
      rcases h.locked j call' _ hp with hl | ⟨-, hcheck⟩
      · cases hl
      · exact h.tokens _ _ (checkTransaction_ok hcheck ht)
    · exact h.committedDrawn j call' hm ht

/-- The writer runs a job. -/
theorem Orderly.write (h : s.Orderly) (hd : s.NoDrop codec .write) :
    (s.step codec .write).Orderly := by
  unfold step
  dsimp only
  split
  · rename_i id call queue p hq hp
    have hmem : (id, call) ∈ s.queue := by
      rw [hq]
      exact List.mem_cons_self
    have hanswer : ∀ inProgress, s.inProgress id = some inProgress →
        s.inProgress id = some (call, .waiting) := by
      intro inProgress hi
      obtain ⟨hc, hs⟩ := h.queued id call hmem _ _ hi
      rw [hi]
      exact congrArg some (Prod.ext hc hs)
    cases hi : s.inProgress id with
    | none =>
      obtain ⟨status, ho⟩ := hd id call queue p hq hp hi
      have he := exceptMap_eq_error.mp ho
      simp only [he]
      refine h.dequeue hq (s.service.setPersistence _) rfl s.inProgress (fun _ _ => rfl)
        fun call' stage hs => ?_
      rw [hi] at hs
      cases hs
    | some progress =>
      dsimp only
      have hs := fun answer => h.dequeue hq (s.service.setPersistence (persistentWrites codec p
          call.request.database call.request.writes false call.commitTime).2) rfl
        (Function.update s.inProgress id (some (call, .answered answer)))
        (fun j hj => Function.update_of_ne hj _ _) (fun call' stage hu => by
          rw [Function.update_self] at hu
          exact ⟨(Prod.mk.inj (Option.some.inj hu)).1.symm, hanswer progress hi⟩)
      have hnew : ∀ call', (id, call') ∉ s.committed := by
        intro call' hm
        rcases h.finished id call' hm with ⟨results, ha⟩ | ⟨hnone, -⟩
        · cases (h.queued id call hmem _ _ ha).2
        · rw [hnone] at hi
          cases hi
      have hout : outcome codec p call = (persistentWrites codec p call.request.database
          call.request.writes false call.commitTime).1.map Prod.fst := rfl
      rw [hout]
      cases hw : (persistentWrites codec p call.request.database call.request.writes false
          call.commitTime).1 with
      | error status => exact hs (.error status)
      | ok written =>
        exact (hs (.ok written.1)).commit (Function.update_self ..) hnew
  · exact h

/-- The commit is answered: it sends its notification and gives up its token and the
lock. -/
theorem Orderly.release (h : s.Orderly) {id : Nat} {call : CommitCall}
    {results : List WriteResult} (hp : s.inProgress id = some (call, .answered (.ok results))) :
    ({ s.finish id with
        service := s.service.notify.setStore
          (removeTransaction s.service.store call.request.transaction)
        notified := id :: s.notified } : Commits β).Orderly := by
  have hheld := h.holder_eq hp (by simp)
  have hkept : ∀ (token : Bytes) (database : String),
      (removeTransaction s.service.store call.request.transaction).transactions[token]? =
        some database → s.service.store.transactions[token]? = some database := by
    intro token database ht
    unfold removeTransaction at ht
    split at ht
    · exact ht
    · rw [Store.setTransactions, ExtTreeMap.getElem?_erase] at ht
      split at ht
      · cases ht
      · exact ht
  have hspent : ∀ token : Bytes, s.Spent token → token ≠ [] →
      (removeTransaction s.service.store call.request.transaction).transactions[token]? = none := by
    intro token hs ht
    by_contra hsome
    obtain ⟨database, hdb⟩ := Option.ne_none_iff_exists'.mp hsome
    have hactive := hkept token database hdb
    rw [hs ht] at hactive
    cases hactive
  have hremoved : call.request.transaction ≠ [] →
      (removeTransaction s.service.store call.request.transaction).transactions[
        call.request.transaction]? = none := by
    intro ht
    rw [removeTransaction, if_neg ht]
    simp [Store.setTransactions]
  constructor
  case locked =>
    intro j call' stage hj
    by_cases he : j = id
    · subst he
      simp [Commits.finish] at hj
    · simp only [Commits.finish, Function.update_of_ne he] at hj
      rcases h.locked j call' stage hj with hl | ⟨hh, -⟩
      · exact .inl hl
      · exact absurd (Option.some.inj (hh.symm.trans hheld)) he
  case below =>
    intro j hj
    by_cases he : j = id
    · subst he
      simp [Commits.finish]
    · simp only [Commits.finish, Function.update_of_ne he]
      exact h.below j hj
  case queued =>
    intro j call' hm call'' stage hj
    by_cases he : j = id
    · subst he
      simp [Commits.finish] at hj
    · simp only [Commits.finish, Function.update_of_ne he] at hj
      exact h.queued j call' hm call'' stage hj
  case queuedBelow => exact h.queuedBelow
  case distinct => exact h.distinct
  case committedBelow => exact h.committedBelow
  case finished =>
    intro j call' hm
    right
    by_cases he : j = id
    · subst he
      refine ⟨by simp [Commits.finish], List.mem_cons_self, ?_⟩
      rcases h.finished j call' hm with ⟨results', ha⟩ | ⟨hnone, -⟩
      · obtain ⟨rfl, -⟩ := Prod.mk.inj (Option.some.inj (hp.symm.trans ha))
        exact hremoved
      · rw [hnone] at hp
        cases hp
    · simp only [Commits.finish, Function.update_of_ne he]
      rcases h.finished j call' hm with ⟨results', ha⟩ | ⟨hnone, hn, hs⟩
      · exact absurd (Option.some.inj ((h.holder_eq ha (by simp)).symm.trans hheld)) he
      · exact ⟨hnone, List.mem_cons_of_mem _ hn, hspent _ hs⟩
  case once => exact h.once
  case tokens => exact fun token database ht => h.tokens token database (hkept token database ht)
  case committedDrawn => exact h.committedDrawn

/-- A request other than a commit draws a new token, or takes none. -/
theorem handle_drawn (service : FirestoreService β) (call : Call)
    (hc : ∀ request, call.request ≠ .commit request) {token : Bytes} {database : String}
    (ht : (handle codec service call).2.store.transactions[token]? = some database) :
    call.issued.isSome ∧ call.uuid = token ∨ service.store.transactions[token]? = some database := by
  rw [handle_transactions] at ht
  split at ht
  · rename_i opened hi
    rw [ExtTreeMap.getElem?_insert] at ht
    split at ht
    · rename_i he
      exact .inl ⟨by simp [hi], by simpa using he⟩
    · exact .inr ht
  · right
    split at ht
    · obtain ⟨request, now, uuid⟩ := call
      cases request with
      | commit request => exact absurd rfl (hc request)
      | rollback request =>
        dsimp only [Request.remaining] at ht
        rw [ExtTreeMap.getElem?_erase] at ht
        split at ht
        · cases ht
        · exact ht
      | clearDatabase cleared =>
        dsimp only [Request.remaining] at ht
        rw [ExtTreeMap.getElem?_filter', Option.filter_eq_some_iff] at ht
        exact ht.1
      | _ => exact ht
    · exact ht

/-- A write that leaves the store lock alone keeps the tokens. -/
theorem handle_unlocked (service : FirestoreService β) (call : Call)
    (hl : call.request.takesStoreLock = false) :
    (handle codec service call).2.store.transactions = service.store.transactions := by
  rw [handle_transactions]
  obtain ⟨request, now, uuid⟩ := call
  cases request with
  | createDocument request | updateDocument request | deleteDocument request | batchWrite request =>
    dsimp only [Call.issued, Request.remaining]
    split <;> rfl
  | _ => cases hl

/-- Another request is served. -/
theorem Orderly.other (h : s.Orderly) {call : Call} (hc : ∀ request, call.request ≠ .commit request)
    (hl : call.request.takesStoreLock = false ∨ s.holder = none)
    (hf : call.issued.isSome → call.uuid ∉ s.drawn) :
    ({ s with
        service := (handle codec s.service call).2
        drawn := if call.issued.isSome then call.uuid :: s.drawn else s.drawn } :
      Commits β).Orderly := by
  have hdrawn : ∀ token, token ∈ s.drawn →
      token ∈ if call.issued.isSome then call.uuid :: s.drawn else s.drawn := by
    intro token ht
    split
    · exact List.mem_cons_of_mem _ ht
    · exact ht
  constructor
  case locked =>
    intro j call' stage hj
    rcases h.locked j call' stage hj with he | ⟨hh, hcheck⟩
    · exact .inl he
    · refine .inr ⟨hh, ?_⟩
      rcases hl with hl | hl
      · unfold checkTransaction validateTransaction at hcheck ⊢
        rw [handle_unlocked codec s.service call hl]
        exact hcheck
      · rw [hl] at hh
        cases hh
  case below => exact h.below
  case queued => exact h.queued
  case queuedBelow => exact h.queuedBelow
  case distinct => exact h.distinct
  case committedBelow => exact h.committedBelow
  case finished =>
    intro j call' hm
    rcases h.finished j call' hm with ha | ⟨hnone, hn, hs⟩
    · exact .inl ha
    · refine .inr ⟨hnone, hn, fun ht => ?_⟩
      by_contra hsome
      obtain ⟨database, hdb⟩ := Option.ne_none_iff_exists'.mp hsome
      rcases handle_drawn codec s.service call hc hdb with ⟨hi, hu⟩ | hactive
      · exact hf hi (hu ▸ h.committedDrawn j call' hm ht)
      · rw [hs ht] at hactive
        cases hactive
  case once => exact h.once
  case tokens =>
    intro token database ht
    rcases handle_drawn codec s.service call hc ht with ⟨hi, hu⟩ | hactive
    · simp only [hi, if_true]
      exact hu ▸ List.mem_cons_self
    · exact hdrawn token (h.tokens token database hactive)
  case committedDrawn => exact fun j call' hm ht => hdrawn _ (h.committedDrawn j call' hm ht)

/-- One event that draws fresh tokens and drops no commit at the wrong time. -/
theorem Orderly.step (h : s.Orderly) (event : CommitEvent) (hf : s.FreshDraw event)
    (hd : s.NoDrop codec event) : (s.step codec event).Orderly := by
  cases event with
  | arrive call => exact h.arrive codec call
  | lock id => exact h.lock codec id
  | send id => exact h.send codec id
  | write => exact h.write codec hd
  | receive id =>
    unfold Commits.step
    dsimp only
    split
    · rename_i call status hp
      refine h.finish fun call' results ha => ?_
      rw [hp] at ha
      cases ha
    · rename_i call results hp
      exact h.release hp
    · exact h
  | drop id => exact h.finish hd
  | other call =>
    unfold Commits.step
    dsimp only
    split
    · exact h
    · rename_i hc
      split
      · exact h
      · rename_i hl
        refine h.other codec hc ?_ hf
        simp only [Bool.and_eq_true, not_and, Bool.not_eq_true] at hl
        cases ht : call.request.takesStoreLock with
        | false => exact .inl rfl
        | true => exact .inr (by simpa using hl ht)

end Steps

/-- The states of a service whose requests draw fresh tokens and whose steps are allowed. -/
def Runs (allowed : Commits β → CommitEvent → Prop) : Commits β → Prop :=
  Reach (step codec) (fun s event => s.FreshDraw event ∧ allowed s event)
    (fun s => ∃ service, s = start service)

end Commits

/-- In every interleaving in which no commit is dropped around the commit of its job, a
committed commit that has ended has spent its token and sent its notification. -/
theorem durable_commit_finishes (codec : DocumentCodec β) {s : Commits β}
    (h : Commits.Runs codec (Commits.NoDrop codec) s) : s.Finished := by
  have horderly : s.Orderly := by
    refine Reach.invariant ?_ ?_ h
    · rintro s ⟨service, rfl⟩
      exact Commits.orderly_start service
    · rintro s event hs ⟨hf, hd⟩
      exact hs.step codec event hf hd
  exact horderly.done

def sampleBegin : Call := ⟨.beginTransaction sampleDatabase, sampleTime 1, [7]⟩

def sampleCommitCall : CommitCall :=
  ⟨⟨sampleDatabase, [sampleSet (sampleName sampleDatabase "a") []], [7]⟩, sampleTime 2⟩

/-- A transaction is opened, and a commit with it gets its job into the queue. -/
def sampleQueued : List CommitEvent :=
  [.other sampleBegin, .arrive sampleCommitCall, .lock 0, .send 0]

theorem sampleBegin_fresh (event : CommitEvent) (he : event = .other sampleBegin) :
    (Commits.start (sampleSqlite [])).FreshDraw event := by
  subst he
  intro _
  decide

def sampleCommits (events : List CommitEvent) : Commits Document :=
  (sampleQueued ++ events).foldl (Commits.step plainCodec) (Commits.start (sampleSqlite []))

theorem durable_commit_finishes_sample : (sampleCommits [.write, .receive 0]).Finished := by
  refine durable_commit_finishes plainCodec (Reach.run (.start ⟨_, rfl⟩)
    ⟨⟨sampleBegin_fresh _ rfl, trivial⟩, ⟨trivial, trivial⟩, ⟨trivial, trivial⟩, ⟨trivial, trivial⟩,
      ⟨trivial, ?_⟩, ⟨trivial, trivial⟩, trivial⟩)
  intro id call queue p hq _ hnone
  obtain ⟨rfl, -⟩ := Prod.mk.inj (List.cons.inj hq).1
  cases hnone

/-- A commit whose future is dropped while its job is in the queue is committed, and
neither gives up its token nor sends its notification. -/
theorem dropped_commit_half_finished :
    ¬ ∀ s : Commits Document, Commits.Runs plainCodec (fun _ _ => True) s → s.Finished := by
  intro h
  have hfinished := h (sampleCommits [.drop 0, .write]) (Reach.run (.start ⟨_, rfl⟩)
    ⟨⟨sampleBegin_fresh _ rfl, trivial⟩, ⟨trivial, trivial⟩, ⟨trivial, trivial⟩, ⟨trivial, trivial⟩,
      ⟨trivial, trivial⟩, ⟨trivial, trivial⟩, trivial⟩)
  exact absurd (hfinished.finished 0 sampleCommitCall List.mem_cons_self rfl).1 List.not_mem_nil

end FirebaseEmu.Firestore
