import FirebaseEmu.Firestore.Channel
import FirebaseEmu.Lib.Machine

namespace FirebaseEmu.Firestore.Channel
open Lib Std Web

variable {β : Type}

/-- Messages were pushed, and no request was received. -/
structure Session.Extends (session session' : Session) : Prop where
  pushed : ∃ values : List Json,
    session'.toNumbered = values.foldl Numbered.push session.toNumbered
  received : session'.received = session.received

namespace Session.Extends

theorem refl (session : Session) : session.Extends session := ⟨⟨[], rfl⟩, rfl⟩

theorem trans {a b c : Session} (hab : a.Extends b) (hbc : b.Extends c) : a.Extends c := by
  obtain ⟨⟨values, hv⟩, hr⟩ := hab
  obtain ⟨⟨more, hm⟩, hr'⟩ := hbc
  refine ⟨⟨values ++ more, ?_⟩, hr'.trans hr⟩
  rw [hm, hv, List.foldl_append]

theorem push {a b : Session} (h : a.Extends b) (value : Json) : a.Extends (b.push value) :=
  h.trans ⟨⟨[value], rfl⟩, rfl⟩

theorem pushes {a b : Session} (h : a.Extends b) (values : List Json) :
    a.Extends (values.foldl Session.push b) := by
  induction values generalizing b with
  | nil => exact h
  | cons value values ih => exact ih (h.push value)

end Session.Extends

variable (config : ChannelConfig β)

theorem refreshTarget_extends (readTime : Json) (initial : Bool) (id : Int32) (target : Target)
    (documents : List Document) (session : Session) :
    session.Extends (refreshTarget config readTime initial id target documents session) := by
  unfold refreshTarget
  have htold : session.Extends ((targetChanges config readTime id target.documents documents).foldl
      Session.push { session with
        targets := session.targets.insert id { target with documents := byName documents } }) := by
    apply Session.Extends.pushes
    exact ⟨⟨[], rfl⟩, rfl⟩
  dsimp only
  split
  · exact htold.push _
  · exact htold

theorem refreshTargets_extends (readTime : Json) (initial : Bool) (ids : List Int32)
    (changed : Bool) (session : Session) (moments : List (Moment β)) :
    session.Extends
      (refreshTargets config readTime initial ids changed session moments).session := by
  induction ids generalizing changed session moments with
  | nil => exact .refl session
  | cons id ids ih =>
    unfold refreshTargets
    split
    · exact .refl session
    · split
      · exact .refl session
      · exact .refl session
      · exact (refreshTarget_extends config readTime initial id _ _ session).trans (ih _ _ _)

theorem refresh_extends (session : Session) (initial : Option Int32)
    (moments : List (Moment β)) :
    session.Extends (refresh config session initial moments).session := by
  unfold refresh
  have h := refreshTargets_extends config (timeJson config.formats (moments.head?.map Moment.now))
    initial.isSome (session.refreshed initial) false session moments
  dsimp only
  split
  · dsimp only
    split
    · exact h.push _
    · exact h
  · exact h
  · exact h
  · exact h

theorem processWrite_extends (session : Session) (message : Json) (moments : List (Moment β)) :
    session.Extends (processWrite config session message moments).session := by
  unfold processWrite
  split
  · exact ⟨⟨[_], rfl⟩, rfl⟩
  · split
    · exact .refl session
    · split
      · exact .refl session
      · split
        · exact .refl session
        · exact ⟨⟨[_], rfl⟩, rfl⟩

theorem process_extends (rpc : Rpc) (session : Session) (message : Json)
    (moments : List (Moment β)) :
    session.Extends (process config rpc session message moments).session := by
  unfold process
  cases rpc with
  | write => exact processWrite_extends config session message moments
  | listen =>
    dsimp only
    split
    · unfold addTarget
      split
      · exact .refl session
      · refine Session.Extends.trans ?_ (refresh_extends config _ _ moments)
        exact ⟨⟨[_], rfl⟩, rfl⟩
    · split
      · exact ⟨⟨[_], rfl⟩, rfl⟩
      · exact .refl session

/-- What a batch does: it pushes messages, and it processes ids that were not received before,
each once. -/
structure PostedOnce (session : Session) (posted : Posted) : Prop where
  pushed : ∃ values : List Json,
    posted.session.toNumbered = values.foldl Numbered.push session.toNumbered
  nodup : posted.processed.Nodup
  fresh : ∀ id ∈ posted.processed, id ∉ session.received
  received : ∀ id, id ∈ posted.session.received ↔ id ∈ posted.processed ∨ id ∈ session.received

/-- A message is processed, and the rest of its batch after it. -/
theorem PostedOnce.cons {session processed : Session} {posted : Posted} {id : UInt64}
    (hid : id ∉ session.received)
    (hp : ({ session with received := id :: session.received } : Session).Extends processed)
    (h : PostedOnce processed posted) :
    PostedOnce session { posted with processed := id :: posted.processed } := by
  obtain ⟨⟨values, hv⟩, hr⟩ := hp
  obtain ⟨more, hm⟩ := h.pushed
  refine ⟨⟨values ++ more, ?_⟩, ?_, ?_, ?_⟩
  · rw [List.foldl_append, ← hv]
    exact hm
  · rw [List.nodup_cons]
    refine ⟨fun hmem => h.fresh id hmem ?_, h.nodup⟩
    rw [hr]
    exact List.mem_cons_self
  · rw [List.forall_mem_cons]
    refine ⟨hid, fun other hmem hother => h.fresh other hmem ?_⟩
    rw [hr]
    exact List.mem_cons_of_mem _ hother
  · intro other
    rw [h.received, hr, List.mem_cons, List.mem_cons]
    tauto

/-- The handler is dropped while it processes a message. -/
theorem PostedOnce.single {session processed : Session} {id : UInt64}
    (hid : id ∉ session.received)
    (hp : ({ session with received := id :: session.received } : Session).Extends processed)
    (outcome : Outcome Unit) : PostedOnce session ⟨outcome, processed, [id]⟩ := by
  have hnone : PostedOnce processed ⟨outcome, processed, []⟩ :=
    ⟨⟨[], rfl⟩, List.nodup_nil, by simp, by simp⟩
  exact hnone.cons hid hp

theorem postMessages_once (rpc : Rpc) (messages : List (UInt64 × Json)) (session : Session)
    (moments : List (Moment β)) :
    PostedOnce session (postMessages config rpc messages session moments) := by
  induction messages generalizing session moments with
  | nil => exact ⟨⟨[], rfl⟩, List.nodup_nil, by simp [postMessages], by simp [postMessages]⟩
  | cons entry rest ih =>
    obtain ⟨id, message⟩ := entry
    unfold postMessages
    split
    · exact ih session moments
    · rename_i hid
      have hp := process_extends config rpc { session with received := id :: session.received }
        message moments
      dsimp only
      split
      · exact (ih _ _).cons hid hp
      · exact (ih _ _).cons hid (hp.push _)
      · exact .single hid hp _
      · exact .single hid hp _

theorem foldl_push_targets (values : List Json) (session : Session) :
    (values.foldl Session.push session).targets = session.targets := by
  induction values generalizing session with
  | nil => rfl
  | cons value values ih => exact ih (session.push value)

theorem refreshTarget_targets (readTime : Json) (initial : Bool) (id : Int32) (target : Target)
    (documents : List Document) (session : Session) :
    (refreshTarget config readTime initial id target documents session).targets =
      session.targets.insert id { target with documents := byName documents } := by
  unfold refreshTarget
  dsimp only
  split
  · exact foldl_push_targets _ _
  · exact foldl_push_targets _ _

/-- The other targets are held as before. -/
theorem refreshTarget_held (readTime : Json) (initial : Bool) {id : Int32}
    {entries : List (Int32 × Target)} (hid : id ∉ entries.map Prod.fst) (target : Target)
    (documents : List Document) {session : Session}
    (hheld : ∀ e ∈ entries, session.targets[e.1]? = some e.2) :
    ∀ e ∈ entries, (refreshTarget config readTime initial id target documents
      session).targets[e.1]? = some e.2 := by
  intro e he
  have hne : id ≠ e.1 := by
    rintro rfl
    exact hid (List.mem_map_of_mem he)
  rw [refreshTarget_targets, ExtTreeMap.getElem?_insert]
  simp [hne, hheld e he]

/-- What comes of reading the documents of targets, one await after the other. -/
def readAll : List (Int32 × Target) → List (Moment β) → Outcome Unit
  | [], _ => .done ()
  | (_, target) :: rest, moments =>
    match readTarget config target.spec moments with
    | none => .dropped
    | some (.error status, _) => .failed status
    | some (.ok _, moments) => readAll rest moments

def Outcome.void {α : Type} : Outcome α → Outcome Unit
  | .done _ => .done ()
  | .failed status => .failed status
  | .dropped => .dropped
  | .panicked => .panicked

/-- The loop ends as the reading of the targets does: each is held until it is refreshed. -/
theorem refreshTargets_outcome (readTime : Json) (initial : Bool)
    {entries : List (Int32 × Target)} (hnodup : (entries.map Prod.fst).Nodup) (changed : Bool)
    {session : Session} (hheld : ∀ e ∈ entries, session.targets[e.1]? = some e.2)
    (moments : List (Moment β)) :
    (refreshTargets config readTime initial (entries.map Prod.fst) changed session
      moments).outcome.void = readAll config entries moments := by
  induction entries generalizing changed session moments with
  | nil => rfl
  | cons entry entries ih =>
    obtain ⟨id, target⟩ := entry
    rw [List.map_cons, List.nodup_cons] at hnodup
    rw [List.forall_mem_cons] at hheld
    unfold readAll
    rw [List.map_cons, refreshTargets]
    simp only [hheld.1]
    cases hread : readTarget config target.spec moments with
    | none => rfl
    | some answer =>
      obtain ⟨documents, rest⟩ := answer
      cases documents with
      | error status => rfl
      | ok documents =>
        dsimp only
        exact ih hnodup.2 _ (refreshTarget_held config readTime initial hnodup.1 target documents
          hheld.2) _

theorem refresh_outcome (session : Session) (initial : Option Int32)
    (moments : List (Moment β)) :
    (refresh config session initial moments).outcome =
      (refreshTargets config (timeJson config.formats (moments.head?.map Moment.now))
        initial.isSome (session.refreshed initial) false session moments).outcome.void := by
  unfold refresh
  dsimp only
  split <;> rename_i h <;> rw [h] <;> rfl

theorem Session.nodup_targets (session : Session) :
    (session.targets.toList.map Prod.fst).Nodup := by
  rw [ExtTreeMap.map_fst_toList_eq_keys]
  exact session.targets.nodup_keys

theorem Session.holds_targets (session : Session) :
    ∀ e ∈ session.targets.toList, session.targets[e.1]? = some e.2 :=
  fun _ he => ExtTreeMap.mem_toList_iff_getElem?_eq_some.mp he

/-- A poll goes through as far as the targets can be read. -/
theorem refresh_all_outcome (session : Session) (moments : List (Moment β)) :
    (refresh config session none moments).outcome =
      readAll config session.targets.toList moments := by
  rw [refresh_outcome, Session.refreshed, ← ExtTreeMap.map_fst_toList_eq_keys]
  exact refreshTargets_outcome config _ _ session.nodup_targets _ session.holds_targets _

theorem readAll_ne_panicked (entries : List (Int32 × Target)) (moments : List (Moment β)) :
    readAll config entries moments ≠ .panicked := by
  induction entries generalizing moments with
  | nil => simp [readAll]
  | cons entry entries ih =>
    obtain ⟨id, target⟩ := entry
    unfold readAll
    split
    · simp
    · simp
    · exact ih _

end FirebaseEmu.Firestore.Channel
