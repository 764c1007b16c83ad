import FirebaseEmu.Firestore.JsonCodec
import FirebaseEmu.Firestore.Listen
import FirebaseEmu.Firestore.Tables

namespace FirebaseEmu.Firestore.Web
open Lib Std

/-- The `spec` of a target. A query is kept as what `query_proto` makes of its JSON. -/
inductive Spec where
  | query (parent : String) (structuredQuery : Except Status StructuredQuery)
  | documents (names : List String)

/-- The messages of a `Listen` channel, without their read times. -/
inductive Message where
  | targetChange (targetChangeType : String) (targetIds : List Int)
  | documentChange (document : Json) (targetIds : List Int)
  | documentRemove (document : String) (removedTargetIds : List Int)
  | error (status : Status)

/-- The messages that make `refresh` say that something changed. -/
def Message.aboutDocument : Message → Bool
  | .documentChange _ _ | .documentRemove _ _ => true
  | _ => false

/-- The documents a target had when it was last evaluated, and how many notifications had
been sent by then, which the source does not keep. -/
abbrev Known := Documents × Option Nat

section Diff
variable (formats : TextFormats)

/-- `previous.map(document_json) != Some(document_json(document))`. -/
def changed (previous : Option Document) (document : Document) : Bool :=
  match previous with
  | some old => !(documentJson formats old).eq (documentJson formats document)
  | none => true

def documentChanges (id : Int) (previous : Documents) (documents : List Document) : List Message :=
  (documents.filter fun document => changed formats previous[document.name]? document).map
    fun document => .documentChange (documentJson formats document) [id]

def documentRemoves (id : Int) (previous next : Documents) : List Message :=
  (previous.keys.filter fun name => !next.contains name).map fun name => .documentRemove name [id]

/-- What a client makes of a message for a target. -/
def clientView (id : Int) (view : ExtTreeMap String Json) : Message → ExtTreeMap String Json
  | .targetChange targetChangeType targetIds =>
    if targetChangeType = "ADD" ∧ id ∈ targetIds then ∅ else view
  | .documentChange document targetIds =>
    if id ∈ targetIds then put view (jsonString document "name") (some document) else view
  | .documentRemove document removedTargetIds =>
    if id ∈ removedTargetIds then put view document none else view
  | .error _ => view

/-- The client holds JSON that is equal to that of the stored document. -/
def Shown (view : Option Json) (stored : Option Document) : Prop :=
  Option.Rel (fun json document => json.eq (documentJson formats document) = true) view stored

/-- The evaluation of one target in `refresh`, with its client. -/
def refresh : Feed Int Spec Known (List Document × Nat) Message (ExtTreeMap String Json) where
  result answer := (byName answer.1, some answer.2)
  before _ _ _ _ := []
  after id previous answer initial :=
    documentChanges formats id previous.1 answer.1 ++
      documentRemoves id previous.1 (byName answer.1) ++
      if initial then [.targetChange "CURRENT" [id]] else []
  view := clientView
  empty := ∅
  shows view known := ∀ name : String, Shown formats view[name]? known.1[name]?

/-- The edit of the client's documents that a message for the target stands for. -/
theorem foldl_clientView (id : Int) (previous next : Documents) (documents : List Document)
    (view : ExtTreeMap String Json) :
    (documentChanges formats id previous documents ++ documentRemoves id previous next).foldl
        (clientView id) view =
      replay view ((documents.filter fun document =>
          changed formats previous[document.name]? document).map
            (fun document => ⟨document.name, some (documentJson formats document)⟩) ++
        (previous.keys.filter fun name => !next.contains name).map (⟨·, none⟩)) := by
  rw [List.foldl_append, replay_append, documentRemoves, documentChanges, List.foldl_map,
    List.foldl_map, replay, List.foldl_map, replay, List.foldl_map]
  simp only [clientView, List.mem_singleton, if_true, documentJson_name]

variable {formats}

theorem Shown.trans {view : Option Json} {stored : Option Document} {document : Document}
    (h : Shown formats view stored) (hu : changed formats stored document = false) :
    Shown formats view (some document) := by
  cases h with
  | none => cases hu
  | some he => exact .some (Json.eq_trans he (by simpa [changed] using hu))

theorem Shown.of_stored {view : Option Json} {document : Document}
    (h : Shown formats view (some document)) : ∃ json, view = some json := by
  cases h with
  | some he => exact ⟨_, rfl⟩

/-- Of documents that agree under each name, each is kept. -/
theorem byName_getElem? {docs : List Document} (hc : Consistent docs) (name : String) :
    (∀ d ∈ docs, d.name = name → (byName docs)[name]? = some d) ∧
      ((∀ d ∈ docs, d.name ≠ name) → (byName docs)[name]? = none) := by
  have hfold : ∀ (rest : List Document) (current : Documents), (∀ d ∈ rest, d ∈ docs) →
      (∀ d ∈ docs, d.name = name → current[name]? = some d ∨ d ∈ rest) →
      ∀ d ∈ docs, d.name = name →
        (rest.foldl (fun current document => current.insert document.name document)
          current)[name]? = some d := by
    intro rest
    induction rest with
    | nil =>
      intro current _ hcurrent d hd hname
      rcases hcurrent d hd hname with h | h
      · exact h
      · cases h
    | cons first rest ih =>
      intro current hrest hcurrent
      rw [List.foldl_cons]
      refine ih _ (fun d hd => hrest d (List.mem_cons_of_mem _ hd)) fun d hd hname => ?_
      rw [insert_eq_put, getElem?_put]
      by_cases hf : first.name = name
      · rw [if_pos hf, hc first (hrest first List.mem_cons_self) d hd (hf.trans hname.symm)]
        exact .inl rfl
      · rw [if_neg hf]
        rcases hcurrent d hd hname with h | h
        · exact .inl h
        · rcases List.mem_cons.mp h with rfl | h
          · exact absurd hname hf
          · exact .inr h
  refine ⟨fun d hd hname => hfold docs ∅ (fun _ h => h) (fun _ h _ => .inr h) d hd hname,
    fun hnone => ?_⟩
  have hother : ∀ (rest : List Document) (current : Documents), (∀ d ∈ rest, d.name ≠ name) →
      (rest.foldl (fun current document => current.insert document.name document)
        current)[name]? = current[name]? := by
    intro rest
    induction rest with
    | nil => exact fun _ _ => rfl
    | cons first rest ih =>
      intro current hrest
      rw [List.foldl_cons, ih _ fun d hd => hrest d (List.mem_cons_of_mem _ hd), insert_eq_put,
        getElem?_put, if_neg (hrest first List.mem_cons_self)]
  rw [byName, hother docs ∅ hnone, ExtTreeMap.getElem?_empty]

/-- The messages of an evaluation bring the client from the previous to the next result. -/
theorem refresh_reaches {id : Int} {previous : Documents} {documents : List Document}
    {view : ExtTreeMap String Json} (hc : Consistent documents)
    (h : ∀ name : String, Shown formats view[name]? previous[name]?) (name : String) :
    Shown formats ((documentChanges formats id previous documents ++
      documentRemoves id previous (byName documents)).foldl (clientView id) view)[name]?
        (byName documents)[name]? := by
  rw [foldl_clientView]
  refine replay_reaches (fun name => (byName documents)[name]?) ?_ fun hskip => ?_
  · intro edit hm
    rcases List.mem_append.mp hm with hm | hm
    · obtain ⟨document, hd, rfl⟩ := List.mem_map.mp hm
      dsimp only
      rw [(byName_getElem? hc document.name).1 document (List.mem_filter.mp hd).1 rfl]
      exact .some (Json.eq_self _)
    · obtain ⟨removed, hr, rfl⟩ := List.mem_map.mp hm
      have hr := (List.mem_filter.mp hr).2
      rw [ExtTreeMap.contains_eq_isSome_getElem?] at hr
      dsimp only
      cases hn : (byName documents)[removed]? with
      | none => exact .none
      | some document => simp [hn] at hr
  · by_cases hd : ∃ document ∈ documents, document.name = name
    · obtain ⟨document, hd, rfl⟩ := hd
      rw [(byName_getElem? hc document.name).1 document hd rfl]
      refine (h document.name).trans ?_
      by_contra hu
      refine hskip ⟨document.name, _⟩ (List.mem_append_left _ (List.mem_map.mpr
        ⟨document, List.mem_filter.mpr ⟨hd, by simpa using hu⟩, rfl⟩)) rfl
    · have hnone : (byName documents)[name]? = none :=
        (byName_getElem? hc name).2 fun document hm hn => hd ⟨document, hm, hn⟩
      rw [hnone]
      have hp : previous[name]? = none := by
        by_contra hp
        refine hskip ⟨name, none⟩ (List.mem_append_right _ (List.mem_map.mpr ⟨name, ?_, rfl⟩)) rfl
        rw [List.mem_filter, ExtTreeMap.mem_keys, ExtTreeMap.mem_iff_isSome_getElem?,
          ExtTreeMap.contains_eq_isSome_getElem?, hnone]
        exact ⟨Option.isSome_iff_ne_none.mpr hp, rfl⟩
      exact hp ▸ h name

theorem refresh_lawful : (refresh formats).Lawful fun answer => Consistent answer.1 := by
  constructor
  · intro id previous answer initial message hm j hj view
    simp only [refresh, List.nil_append, List.mem_append, documentChanges, documentRemoves,
      List.mem_map] at hm
    rcases hm with (⟨document, -, rfl⟩ | ⟨name, -, rfl⟩) | hm
    · simp [refresh, clientView, hj]
    · simp [refresh, clientView, hj]
    · split at hm
      · obtain rfl := List.mem_singleton.mp hm
        rfl
      · cases hm
  · intro id previous answer initial view hc hshows name
    have hcurrent : ∀ view : ExtTreeMap String Json,
        (if initial then [Message.targetChange "CURRENT" [id]] else []).foldl (clientView id)
          view = view := by
      intro view
      cases initial <;> rfl
    show Shown formats (List.foldl (clientView id) view (_ ++ _ ++ _))[name]? _
    rw [List.foldl_append, hcurrent]
    exact refresh_reaches hc hshows name

end Diff

variable {β : Type} (codec : DocumentCodec β) (formats : TextFormats)

/-- `target_docs` of a channel. -/
def targetDocs (service : FirestoreService β) : Spec → Except Status (List Document)
  | .query parent structuredQuery => structuredQuery.bind (queryDocs codec service parent)
  | .documents names => documents codec service names

/-- A channel session beside the store it watches, with the messages pushed so far. While
`refresh` runs, `refreshing` says whether it is that of a new target, and whether anything
changed. `polled` counts the notifications sent when the last poll began to refresh, and
`failed` says that some target's query failed. -/
structure Session (β : Type) where
  service : FirestoreService β
  watch : Watch Int Spec Known Message
  refreshing : Option (Bool × Bool)
  polled : Nat
  failed : Bool

/-- What happens beside and in a session: a request takes effect on the store, the client
adds or removes a target or polls, and `refresh` goes on. -/
inductive SessionEvent where
  | call (call : Call)
  | addTarget (targetId : Int64) (spec : Spec)
  | removeTarget (targetId : Int64)
  | poll
  | advance

namespace Session

/-- Nobody holds the session's lock. -/
def idle (s : Session β) : Bool := s.watch.todo.isEmpty && s.refreshing.isNone

def start (service : FirestoreService β) : Session β :=
  ⟨service, ⟨∅, [], []⟩, none, service.changes, false⟩

/-- `changed |= !messages.is_empty()`, message by message. -/
def noteChange (refreshing : Option (Bool × Bool)) (todo : List (Op Int Spec Known Message)) :
    Option (Bool × Bool) :=
  match todo with
  | .send message :: _ =>
    refreshing.map fun (initial, changed) => (initial, changed || message.aboutDocument)
  | _ => refreshing

/-- The end of `refresh`. -/
def noChange : Option (Bool × Bool) → List Message
  | some (initial, changed) =>
    if changed || initial then [.targetChange "NO_CHANGE" []] else []
  | none => []

/-- The error of a new target is pushed; that of a poll is its answer. -/
def failure (refreshing : Option (Bool × Bool)) (status : Status) : List Message :=
  match refreshing with
  | some (true, _) => [.error status]
  | _ => []

def step (s : Session β) : SessionEvent → Session β
  | .call call => { s with service := (handle codec s.service call).2 }
  | .addTarget targetId spec =>
    if !s.idle then s
    else
      -- `as i32`
      let id := targetId.toInt32.toInt
      { s with
        watch := { s.watch with
          targets := s.watch.targets.insert id (spec, (∅, none))
          todo := [.send (.targetChange "ADD" [id]), .evaluate id spec (∅, none) true] }
        refreshing := some (true, false) }
  | .removeTarget targetId =>
    if !s.idle then s
    else { s with watch := { s.watch with
        targets := s.watch.targets.erase targetId.toInt32.toInt
        todo := [.send (.targetChange "REMOVE" [targetId.toInt])] } }
  | .poll =>
    if !s.idle then s
    else { s with
      watch := Feed.refresh s.watch, refreshing := some (false, false), polled := s.service.changes }
  | .advance =>
    if s.watch.todo.isEmpty then { s with
      watch := { s.watch with sent := s.watch.sent ++ noChange s.refreshing }, refreshing := none }
    else
      let read := fun spec => (targetDocs codec s.service spec).map (·, s.service.changes)
      match (refresh formats).advance read s.watch with
      | .ok watch => { s with watch := watch, refreshing := noteChange s.refreshing s.watch.todo }
      | .error status => { s with
        watch := { s.watch with sent := s.watch.sent ++ failure s.refreshing status, todo := [] }
        refreshing := none
        failed := true }

def run (s : Session β) (events : List SessionEvent) : Session β :=
  events.foldl (step codec formats) s

end Session

section Converging

/-- The documents of the target are now these. -/
def ResultNow (service : FirestoreService β) (spec : Spec) (current : Documents) : Prop :=
  ∃ docs, targetDocs codec service spec = .ok docs ∧ byName docs = current

/-- A result read since the last poll began, and current unless a notification was sent
since it was read. -/
def Current (service : FirestoreService β) (polled : Nat) (spec : Spec) (known : Known) : Prop :=
  ∃ evaluated, known.2 = some evaluated ∧ polled ≤ evaluated ∧ evaluated ≤ service.changes ∧
    (evaluated = service.changes → ResultNow codec service spec known.1)

/-- Unless a query failed, the client is shown what the session keeps, and that is current. -/
structure Session.Converging (s : Session β) : Prop where
  tabled : Tabled codec s.service
  polled : s.polled ≤ s.service.changes
  faithful : s.failed = false → (refresh formats).FaithfulWatch s.watch
  current : s.failed = false → Feed.FreshWatch (Current codec s.service s.polled) s.watch

variable {codec formats}

theorem targetDocs_eq {service service' : FirestoreService β} (h : SameDocuments service service')
    (spec : Spec) : targetDocs codec service' spec = targetDocs codec service spec := by
  cases spec with
  | query parent structuredQuery =>
    cases structuredQuery with
    | error status => rfl
    | ok query => exact h.queryDocs_eq codec parent query
  | documents names => exact h.documents_eq codec names

theorem targetDocs_consistent {service : FirestoreService β} (h : Tabled codec service)
    {spec : Spec} {docs : List Document} (hd : targetDocs codec service spec = .ok docs) :
    Consistent docs := by
  cases spec with
  | query parent structuredQuery =>
    obtain ⟨query, -, hq⟩ := exceptBind_eq_ok.mp hd
    exact h.queryDocs_consistent hq
  | documents names => exact h.documents_consistent hd

/-- What was current stays so while the documents are the same, and else grows old. -/
theorem Current.call {service service' : FirestoreService β} {polled : Nat} {spec : Spec}
    {known : Known} (h : Current codec service polled spec known)
    (hn : Notifies service service') : Current codec service' polled spec known := by
  obtain ⟨evaluated, he, hp, hle, hnow⟩ := h
  rcases hn with ⟨hsame, hc⟩ | hc
  · refine ⟨evaluated, he, hp, hc ▸ hle, fun hcurrent => ?_⟩
    obtain ⟨docs, hd, hb⟩ := hnow (hcurrent.trans hc)
    exact ⟨docs, (targetDocs_eq hsame spec).trans hd, hb⟩
  · exact ⟨evaluated, he, hp, by omega, fun hcurrent => by omega⟩

theorem Session.Converging.start {service : FirestoreService β} (h : Tabled codec service) :
    (Session.start service).Converging codec formats := by
  refine ⟨h, Nat.le_refl _, fun _ id target previous ht => ?_, fun _ id target previous ht => ?_⟩
  · simp [Session.start] at ht
  · simp [Session.start] at ht

theorem Session.idle_iff {s : Session β} (h : s.idle = true) :
    s.watch.todo = [] ∧ s.refreshing = none := by
  simpa [Session.idle] using h

/-- A request on the store. -/
theorem Session.Converging.call {s : Session β} (h : s.Converging codec formats) (call : Call) :
    (s.step codec formats (.call call)).Converging codec formats := by
  have hn := handle_notifies codec s.service call
  refine ⟨h.tabled.handle call, ?_, h.faithful, fun hf =>
    (h.current hf).mono fun spec known hc => hc.call hn⟩
  show s.polled ≤ (handle codec s.service call).2.changes
  have hp := h.polled
  rcases hn with ⟨-, hc⟩ | hc <;> omega

/-- A new target. -/
theorem Session.Converging.addTarget {s : Session β} (h : s.Converging codec formats)
    (htodo : s.watch.todo = []) (id : Int) (spec : Spec) :
    ({ s with
        watch := { s.watch with
          targets := s.watch.targets.insert id (spec, (∅, none))
          todo := [.send (.targetChange "ADD" [id]), .evaluate id spec (∅, none) true] }
        refreshing := some (true, false) } : Session β).Converging codec formats := by
  have htargets : ∀ j, j ≠ id → (s.watch.targets.insert id (spec, (∅, none)))[j]? =
      s.watch.targets[j]? := by
    intro j hj
    simp [ExtTreeMap.getElem?_insert, Ne.symm hj]
  refine ⟨h.tabled, h.polled, fun hf => (h.faithful hf).add htodo rfl rfl htargets ?_ ?_,
    fun hf => (h.current hf).add htodo rfl htargets⟩
  · intro view name
    simp only [refresh, clientView, List.mem_singleton, and_self, if_true,
      ExtTreeMap.getElem?_empty]
    exact .none
  · intro j hj view
    simp [refresh, clientView, hj]

/-- A target less. -/
theorem Session.Converging.removeTarget {s : Session β} (h : s.Converging codec formats)
    (htodo : s.watch.todo = []) (id removed : Int) :
    ({ s with watch := { s.watch with
        targets := s.watch.targets.erase id
        todo := [.send (.targetChange "REMOVE" [removed])] } } : Session β).Converging
          codec formats := by
  have htargets : ∀ (j : Int) (entry : Spec × Known),
      (s.watch.targets.erase id)[j]? = some entry → s.watch.targets[j]? = some entry := by
    intro j entry he
    rw [ExtTreeMap.getElem?_erase] at he
    split at he
    · cases he
    · exact he
  refine ⟨h.tabled, h.polled, fun hf => (h.faithful hf).drop htodo rfl rfl htargets fun j view => ?_,
    fun hf => (h.current hf).drop htodo rfl htargets⟩
  simp [refresh, clientView]

/-- A poll. -/
theorem Session.Converging.poll {s : Session β} (h : s.Converging codec formats)
    (htodo : s.watch.todo = []) :
    ({ s with
      watch := Feed.refresh s.watch, refreshing := some (false, false),
      polled := s.service.changes } : Session β).Converging codec formats :=
  ⟨h.tabled, Nat.le_refl _, fun hf => (h.faithful hf).refresh htodo, fun _ => .refresh _ _⟩

/-- A message about no target's documents. -/
theorem faithful_noChange {w : Watch Int Spec Known Message}
    (h : (refresh formats).FaithfulWatch w) (htodo : w.todo = [])
    (refreshing : Option (Bool × Bool)) :
    (refresh formats).FaithfulWatch { w with sent := w.sent ++ Session.noChange refreshing } := by
  unfold Session.noChange
  split
  · split
    · unfold Feed.FaithfulWatch at h ⊢
      rw [htodo] at h
      rw [Feed.views_concat, htodo]
      exact h
    · rwa [List.append_nil]
  · rwa [List.append_nil]

/-- One event keeps the session converging. -/
theorem Session.Converging.step {s : Session β} (h : s.Converging codec formats)
    (event : SessionEvent) : (s.step codec formats event).Converging codec formats := by
  cases event with
  | call call => exact h.call call
  | addTarget targetId spec =>
    unfold Session.step
    dsimp only
    split
    · exact h
    · rename_i hidle
      exact h.addTarget (Session.idle_iff (by simpa using hidle)).1 _ spec
  | removeTarget targetId =>
    unfold Session.step
    dsimp only
    split
    · exact h
    · rename_i hidle
      exact h.removeTarget (Session.idle_iff (by simpa using hidle)).1 _ _
  | poll =>
    unfold Session.step
    dsimp only
    split
    · exact h
    · rename_i hidle
      exact h.poll (Session.idle_iff (by simpa using hidle)).1
  | advance =>
    unfold Session.step
    dsimp only
    split
    · rename_i hempty
      have htodo : s.watch.todo = [] := by simpa using hempty
      exact ⟨h.tabled, h.polled, fun hf => faithful_noChange (h.faithful hf) htodo _, h.current⟩
    · split
      · rename_i watch ha
        refine ⟨h.tabled, h.polled, fun hf => (h.faithful hf).advance refresh_lawful ?_ ha,
          fun hf => (h.current hf).advance ?_ ha⟩
        · intro spec answer hread
          obtain ⟨docs, hdocs, rfl⟩ := exceptMap_eq_ok.mp hread
          exact targetDocs_consistent h.tabled hdocs
        · intro spec answer hread
          obtain ⟨docs, hdocs, rfl⟩ := exceptMap_eq_ok.mp hread
          exact ⟨s.service.changes, rfl, h.polled, Nat.le_refl _, fun _ => ⟨docs, hdocs, rfl⟩⟩
      · exact ⟨h.tabled, h.polled, (fun hf => by cases hf), (fun hf => by cases hf)⟩

theorem Session.Converging.run {s : Session β} (h : s.Converging codec formats)
    (events : List SessionEvent) : (s.run codec formats events).Converging codec formats := by
  induction events generalizing s with
  | nil => exact h
  | cons event events ih => exact ih (h.step event)

/-- An idle session has shown its client documents of each target that it read since the
last poll began, and that are the ones there are unless a mutation landed since. -/
theorem Session.Converging.shown {s : Session β} (h : s.Converging codec formats)
    (hidle : s.idle = true) (hfailed : s.failed = false) {id : Int} {spec : Spec} {known : Known}
    (ht : s.watch.targets[id]? = some (spec, known)) :
    Current codec s.service s.polled spec known ∧
      ∀ name : String, Shown formats ((refresh formats).views s.watch.sent id)[name]?
        known.1[name]? :=
  Feed.settled (h.faithful hfailed) (h.current hfailed) (Session.idle_iff hidle).1 ht

end Converging

end FirebaseEmu.Firestore.Web
