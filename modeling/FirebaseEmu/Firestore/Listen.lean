import FirebaseEmu.Firestore.Notify
import FirebaseEmu.Lib.Replay
import FirebaseEmu.Lib.Watch

namespace FirebaseEmu.Firestore
open Lib Std

/-- The messages of a listen stream, without the read times and tokens that nothing
reads. -/
inductive ListenResponse where
  | targetChange (targetChangeType : Int) (targetIds : List Int)
  | documentChange (document : Document) (targetIds removedTargetIds : List Int)
  | documentRemove (document : String) (removedTargetIds : List Int)

/-- The documents under their names; of documents with one name the last is kept. -/
def byName (docs : List Document) : Documents :=
  docs.foldl (fun current document => current.insert document.name document) ∅

/-- `previous.get(name) == Some(doc)`. -/
def unchanged (previous : Option Document) (document : Document) : Bool :=
  match previous with
  | some old => old.eq document
  | none => false

def documentRemoves (id : Int) (previous current : Documents) : List ListenResponse :=
  (previous.keys.filter fun name => !current.contains name).map fun name =>
    .documentRemove name [id]

def documentChanges (id : Int) (previous current : Documents) : List ListenResponse :=
  (current.toList.filter fun (name, document) => !unchanged previous[name]? document).map
    fun (_, document) => .documentChange document [id] []

/-- What a client makes of a message for a target: the target starts with no documents. -/
def clientView (id : Int) (view : Documents) : ListenResponse → Documents
  | .targetChange targetChangeType targetIds =>
    if targetChangeType = 1 ∧ id ∈ targetIds then ∅ else view
  | .documentChange document targetIds _ =>
    if id ∈ targetIds then put view document.name (some document) else view
  | .documentRemove document removedTargetIds =>
    if id ∈ removedTargetIds then put view document none else view

/-- The client holds the document that is stored, or one that is `==` to it. -/
def Shown (view stored : Option Document) : Prop :=
  view = stored ∨ ∃ old document, view = some old ∧ stored = some document ∧
    old.eq document = true

/-- `emit_target`, with its client. -/
def emitTarget : Feed Int Target Documents (List Document) ListenResponse Documents where
  result := byName
  before id previous docs _ :=
    documentRemoves id previous (byName docs) ++ documentChanges id previous (byName docs)
  after id _ _ initial :=
    (if initial then [.targetChange 3 [id]] else []) ++ [.targetChange 0 []]
  view := clientView
  empty := ∅
  shows view result := ∀ name : String, Shown view[name]? result[name]?

section Diff

theorem byName_named (docs : List Document) : Named (byName docs) := by
  have hfold : ∀ current : Documents, Named current →
      Named (docs.foldl (fun current document => current.insert document.name document)
        current) := by
    intro current hn
    induction docs generalizing current with
    | nil => exact hn
    | cons document docs ih => exact ih _ (hn.insert document)
  exact hfold ∅ named_empty

/-- The edit of the client's documents that a message for the target stands for. -/
def editOf : ListenResponse → Option (Edit String Document)
  | .targetChange _ _ => none
  | .documentChange document _ _ => some ⟨document.name, some document⟩
  | .documentRemove document _ => some ⟨document, none⟩

/-- The messages before the result is stored are edits of the one target. -/
theorem foldl_clientView (id : Int) (previous current view : Documents) :
    (documentRemoves id previous current ++ documentChanges id previous current).foldl
        (clientView id) view =
      replay view ((previous.keys.filter fun name => !current.contains name).map (⟨·, none⟩) ++
        (current.toList.filter fun (name, document) => !unchanged previous[name]? document).map
          fun (_, document) => ⟨document.name, some document⟩) := by
  rw [List.foldl_append, replay_append, documentRemoves, documentChanges, List.foldl_map,
    List.foldl_map, replay, List.foldl_map, replay, List.foldl_map]
  simp only [clientView, List.mem_singleton, if_true]

theorem Shown.trans {view stored : Option Document} {document : Document}
    (h : Shown view stored) (hu : unchanged stored document = true) :
    Shown view (some document) := by
  cases stored with
  | none => cases hu
  | some old =>
    rcases h with rfl | ⟨oldest, _, rfl, ho, he⟩
    · exact .inr ⟨old, document, rfl, rfl, hu⟩
    · obtain rfl := Option.some.inj ho
      exact .inr ⟨oldest, document, rfl, rfl, Document.eq_trans he hu⟩

/-- The messages of an evaluation bring the client from the previous to the current
result. -/
theorem emitTarget_reaches {id : Int} {previous current view : Documents} (hn : Named current)
    (h : ∀ name : String, Shown view[name]? previous[name]?) (name : String) :
    Shown ((documentRemoves id previous current ++ documentChanges id previous current).foldl
      (clientView id) view)[name]? current[name]? := by
  rw [foldl_clientView]
  refine replay_reaches (fun name => current[name]?) ?_ fun hskip => ?_
  · intro edit hm
    rcases List.mem_append.mp hm with hm | hm
    · obtain ⟨removed, hr, rfl⟩ := List.mem_map.mp hm
      have hr := (List.mem_filter.mp hr).2
      rw [ExtTreeMap.contains_eq_isSome_getElem?] at hr
      cases hc : current[removed]? with
      | none => exact .inl rfl
      | some document => simp [hc] at hr
    · obtain ⟨⟨changed, document⟩, hc, rfl⟩ := List.mem_map.mp hm
      have hc := ExtTreeMap.mem_toList_iff_getElem?_eq_some.mp (List.mem_filter.mp hc).1
      left
      show some document = current[document.name]?
      rw [hn changed document hc, hc]
  · cases hc : current[name]? with
    | none =>
      have hp : previous[name]? = none := by
        by_contra hp
        refine hskip ⟨name, none⟩ (List.mem_append_left _ (List.mem_map.mpr ⟨name, ?_, rfl⟩)) rfl
        rw [List.mem_filter, ExtTreeMap.mem_keys, ExtTreeMap.mem_iff_isSome_getElem?,
          ExtTreeMap.contains_eq_isSome_getElem?, hc]
        exact ⟨Option.isSome_iff_ne_none.mpr hp, rfl⟩
      exact hp ▸ h name
    | some document =>
      have hu : unchanged previous[name]? document = true := by
        by_contra hu
        refine hskip ⟨document.name, some document⟩ (List.mem_append_right _
          (List.mem_map.mpr ⟨(name, document), ?_, rfl⟩)) (hn name document hc)
        rw [List.mem_filter]
        exact ⟨ExtTreeMap.mem_toList_iff_getElem?_eq_some.mpr hc, by simpa using hu⟩
      exact (h name).trans hu

end Diff

theorem emitTarget_lawful : emitTarget.Lawful fun _ => True := by
  constructor
  · intro id previous docs initial message hm j hj view
    simp only [emitTarget, List.mem_append, documentRemoves, documentChanges, List.mem_map] at hm
    rcases hm with (⟨name, -, rfl⟩ | ⟨entry, -, rfl⟩) | (hm | hm)
    · simp [emitTarget, clientView, hj]
    · simp [emitTarget, clientView, hj]
    · split at hm
      · obtain rfl := List.mem_singleton.mp hm
        rfl
      · cases hm
    · obtain rfl := List.mem_singleton.mp hm
      rfl
  · intro id previous docs initial view _ hshows name
    have hafter : ∀ view : Documents, (emitTarget.after id previous docs initial).foldl
        (emitTarget.view id) view = view := by
      intro view
      cases initial <;> rfl
    rw [List.foldl_append, hafter]
    exact emitTarget_reaches (byName_named docs) hshows name

variable {β : Type} (codec : DocumentCodec β)

/-- The slots of the broadcast channel. -/
def channelCapacity : Nat := 128

/-- A listen stream beside the store it watches. `owed` counts the mutations whose
notification is still to be sent, `notified` the notifications sent, and `received` those
the stream has received or lost. -/
structure Stream (β : Type) where
  service : FirestoreService β
  owed : Nat
  notified : Nat
  received : Nat
  watch : Watch Int Target Documents ListenResponse
  closed : Bool

/-- What happens beside and in a listen stream: a request takes effect on the store, a
notification is sent, and the stream receives one, hears from its client, or goes on. -/
inductive StreamEvent where
  | call (call : Call)
  | notify
  | receive
  | addTarget (target : Target)
  | removeTarget (targetId : Int)
  | advance

/-- `(1..).find(|id| !targets.contains_key(id))`. -/
def unusedTargetId (targets : ExtTreeMap Int (Target × Documents)) : Int :=
  (((List.range (targets.size + 1)).map fun n => (n : Int) + 1).find? fun id =>
    !targets.contains id).getD 1

namespace Stream

/-- The loop is back at its `select!`. -/
def idle (s : Stream β) : Bool := !s.closed && s.watch.todo.isEmpty

def start (service : FirestoreService β) (owed : Nat) : Stream β :=
  ⟨service, owed, 0, 0, ⟨∅, [], []⟩, false⟩

def step (s : Stream β) : StreamEvent → Stream β
  | .call call =>
    let service := (handle codec s.service call).2
    { s with service := service, owed := s.owed + (service.changes - s.service.changes) }
  | .notify =>
    if s.owed = 0 then s else { s with owed := s.owed - 1, notified := s.notified + 1 }
  | .receive =>
    if !s.idle || s.received == s.notified then s
    -- a receiver that lags behind is told so, and goes on at the oldest slot
    else { s with
      received := if s.received + channelCapacity < s.notified then s.notified - channelCapacity
        else s.received + 1
      watch := Feed.refresh s.watch }
  | .addTarget target =>
    if !s.idle then s
    else
      let id := if target.targetId = 0 then unusedTargetId s.watch.targets else target.targetId
      { s with watch := { s.watch with
          todo := [.send (.targetChange 1 [id]),
            .evaluate id { target with targetId := id } ∅ true] } }
  | .removeTarget id =>
    if !s.idle then s
    else { s with watch := { s.watch with
        targets := s.watch.targets.erase id
        todo := [.send (.targetChange 2 [id])] } }
  | .advance =>
    match emitTarget.advance (targetDocs codec s.service) s.watch with
    | .ok watch => { s with watch := watch }
    -- the error is sent and the loop ends
    | .error _ => { s with closed := true, watch := ⟨∅, s.watch.sent, []⟩ }

def run (s : Stream β) (events : List StreamEvent) : Stream β := events.foldl (step codec) s

/-- Every mutation has been followed by its notification, and the loop has processed
every notification. -/
def Settled (s : Stream β) : Prop :=
  s.owed = 0 ∧ s.received = s.notified ∧ s.watch.todo = []

end Stream

/-- The documents of the target are now these. -/
def ResultNow (service : FirestoreService β) (target : Target) (current : Documents) : Prop :=
  ∃ docs, targetDocs codec service target = .ok docs ∧ byName docs = current

theorem SameDocuments.resultNow_eq {service service' : FirestoreService β}
    (h : SameDocuments service service') : ResultNow codec service' = ResultNow codec service := by
  funext target current
  rw [ResultNow, ResultNow, h.targetDocs_eq]

/-- The client is shown what the stream keeps, and the stream keeps what there is, unless
a notification is still to come. -/
structure Stream.Converging (s : Stream β) : Prop where
  faithful : emitTarget.FaithfulWatch s.watch
  received : s.received ≤ s.notified
  fresh : 0 < s.owed ∨ s.received < s.notified ∨
    Feed.FreshWatch (ResultNow codec s.service) s.watch

variable {codec}

theorem Stream.Converging.start (service : FirestoreService β) (owed : Nat) :
    (Stream.start service owed).Converging codec := by
  refine ⟨fun id target previous ht => ?_, Nat.le_refl _, .inr (.inr fun id target previous ht => ?_)⟩
  · simp [Stream.start] at ht
  · simp [Stream.start] at ht

theorem Stream.idle_iff {s : Stream β} (h : s.idle = true) :
    s.closed = false ∧ s.watch.todo = [] := by
  simpa [Stream.idle] using h

/-- A request on the store: it leaves the results as they are, or owes a notification. -/
theorem Stream.Converging.call {s : Stream β} (h : s.Converging codec) (call : Call) :
    (s.step codec (.call call)).Converging codec := by
  refine ⟨h.faithful, h.received, ?_⟩
  show 0 < s.owed + _ ∨ _
  rcases handle_notifies codec s.service call with ⟨hsame, -⟩ | hchanges
  · rcases h.fresh with ho | hr | hf
    · exact .inl (Nat.lt_of_lt_of_le ho (Nat.le_add_right _ _))
    · exact .inr (.inl hr)
    · exact .inr (.inr (hsame.resultNow_eq codec ▸ hf))
  · rw [hchanges]
    exact .inl (by omega)

/-- A notification, or the news that some were lost: all targets are evaluated again. -/
theorem Stream.Converging.receive {s : Stream β} (h : s.Converging codec)
    (htodo : s.watch.todo = []) (hr : s.received ≠ s.notified) :
    ({ s with
      received := if s.received + channelCapacity < s.notified then s.notified - channelCapacity
        else s.received + 1
      watch := Feed.refresh s.watch } : Stream β).Converging codec := by
  refine ⟨h.faithful.refresh htodo, ?_, .inr (.inr (.refresh _ s.watch))⟩
  have hle := h.received
  dsimp only
  split <;> omega

/-- One event keeps the stream converging. -/
theorem Stream.Converging.step {s : Stream β} (h : s.Converging codec) (event : StreamEvent) :
    (s.step codec event).Converging codec := by
  cases event with
  | call call => exact h.call call
  | notify =>
    unfold Stream.step
    dsimp only
    split
    · exact h
    · exact ⟨h.faithful, h.received.trans (Nat.le_succ _), .inr (.inl (Nat.lt_succ_of_le h.received))⟩
  | receive =>
    unfold Stream.step
    dsimp only
    split
    · exact h
    · rename_i hready
      simp only [Bool.or_eq_true, Bool.not_eq_true', beq_iff_eq, not_or, Bool.not_eq_false] at hready
      exact h.receive (Stream.idle_iff hready.1).2 hready.2
  | addTarget target =>
    unfold Stream.step
    dsimp only
    split
    · exact h
    · rename_i hidle
      have htodo := (Stream.idle_iff (by simpa using hidle)).2
      refine ⟨h.faithful.add htodo rfl rfl (fun _ _ => rfl) ?_ ?_, h.received, ?_⟩
      · intro view name
        simp [emitTarget, clientView, Shown]
      · intro j hj view
        simp [emitTarget, clientView, hj]
      · rcases h.fresh with ho | hr | hf
        · exact .inl ho
        · exact .inr (.inl hr)
        · exact .inr (.inr (hf.add htodo rfl fun _ _ => rfl))
  | removeTarget id =>
    unfold Stream.step
    dsimp only
    split
    · exact h
    · rename_i hidle
      have htodo := (Stream.idle_iff (by simpa using hidle)).2
      have htargets : ∀ (j : Int) (entry : Target × Documents),
          (s.watch.targets.erase id)[j]? = some entry → s.watch.targets[j]? = some entry := by
        intro j entry he
        rw [ExtTreeMap.getElem?_erase] at he
        split at he
        · cases he
        · exact he
      refine ⟨h.faithful.drop htodo rfl rfl htargets fun j view => ?_, h.received, ?_⟩
      · simp [emitTarget, clientView]
      · rcases h.fresh with ho | hr | hf
        · exact .inl ho
        · exact .inr (.inl hr)
        · exact .inr (.inr (hf.drop htodo rfl htargets))
  | advance =>
    unfold Stream.step
    dsimp only
    split
    · rename_i watch ha
      refine ⟨h.faithful.advance emitTarget_lawful (fun _ _ _ => trivial) ha, h.received, ?_⟩
      rcases h.fresh with ho | hr | hf
      · exact .inl ho
      · exact .inr (.inl hr)
      · exact .inr (.inr (hf.advance (fun target docs hread => ⟨docs, hread, rfl⟩) ha))
    · refine ⟨fun id target previous ht => ?_, h.received, .inr (.inr fun id target previous ht => ?_)⟩
      · simp at ht
      · simp at ht

theorem Stream.Converging.run {s : Stream β} (h : s.Converging codec)
    (events : List StreamEvent) : (s.run codec events).Converging codec := by
  induction events generalizing s with
  | nil => exact h
  | cons event events ih => exact ih (h.step event)

/-- A settled stream has shown its client the documents there are. -/
theorem Stream.Converging.shown {s : Stream β} (h : s.Converging codec) (hs : s.Settled)
    {id : Int} {target : Target} {previous : Documents}
    (ht : s.watch.targets[id]? = some (target, previous)) :
    ∃ docs, targetDocs codec s.service target = .ok docs ∧
      ∀ name : String, Shown (emitTarget.views s.watch.sent id)[name]? (byName docs)[name]? := by
  obtain ⟨howed, hreceived, htodo⟩ := hs
  have hfresh : Feed.FreshWatch (ResultNow codec s.service) s.watch := by
    rcases h.fresh with ho | hr | hf
    · omega
    · omega
    · exact hf
  obtain ⟨⟨docs, hdocs, rfl⟩, hshows⟩ := Feed.settled h.faithful hfresh htodo ht
  exact ⟨docs, hdocs, hshows⟩

end FirebaseEmu.Firestore
