import FirebaseEmu.Storage.Uploads

namespace FirebaseEmu.Storage
open Lib Std

variable {υ μ π : Type} [DecidableEq υ]

/-- What a step does to the service, case by case. -/
inductive Effect (config : UploadConfig υ μ π) (service : UploadService υ μ π) :
    UploadEvent υ → UploadAnswer → UploadService υ μ π → Prop where
  | refused {event : UploadEvent υ} {code : Nat} {message : String} :
    Effect config service event (.refused code message) service
  | idle {id : υ} {now : String} {draws : Draws} :
    Effect config service (.save id now draws) .idle service
  | started {id : υ} {request : StartRequest} {now : Nat} {upload : PendingUpload}
      (empty : upload.bytes = []) :
    Effect config service (.start id request now) .started { service with
      uploads := assign (pruneExpiredUploads service.uploads now) id (some upload) }
  | turnedAway {request : PutRequest} {now : Nat} {code : Nat} {message : String} :
    Effect config service (.put request now) (.refused code message)
      { service with uploads := pruneExpiredUploads service.uploads now }
  | queried {request : PutRequest} {now size : Nat} :
    Effect config service (.put request now) (.status size)
      { service with uploads := pruneExpiredUploads service.uploads now }
  | cancelled {request : PutRequest} {now : Nat} {id : υ} {upload : PendingUpload}
      (target : request.target config.parseUuid = some id)
      (held : pruneExpiredUploads service.uploads now id = some upload) :
    Effect config service (.put request now) .cancelled { service with
      uploads := assign (pruneExpiredUploads service.uploads now) id none }
  | received {request : PutRequest} {now size : Nat} {id : υ} {upload : PendingUpload}
      (target : request.target config.parseUuid = some id)
      (held : pruneExpiredUploads service.uploads now id = some upload)
      (fits : upload.bytes.length + request.body.length ≤ maxUploadBytes) :
    Effect config service (.put request now) (.received size) { service with
      uploads := assign (pruneExpiredUploads service.uploads now) id
        (some { upload with bytes := upload.bytes ++ request.body }) }
  | finalized {request : PutRequest} {now size : Nat} {id : υ} {upload : PendingUpload}
      (target : request.target config.parseUuid = some id)
      (held : pruneExpiredUploads service.uploads now id = some upload)
      (fits : upload.bytes.length + request.body.length ≤ maxUploadBytes) :
    Effect config service (.put request now) (.finalized size) { service with
      uploads := assign (pruneExpiredUploads service.uploads now) id none
      finalized := assign service.finalized id
        (some ⟨{ upload with bytes := upload.bytes ++ request.body }, request.contentType⟩) }
  | saved {id : υ} {now : String} {draws : Draws} {upload : PendingUpload}
      {contentType : Option String} {reply : Reply} {backend : Backend μ π}
      (held : service.finalized id = some ⟨upload, contentType⟩)
      (saved : service.backend.saveObject config.codec config.event upload.key upload.bytes
        upload.metadata contentType now draws = (reply, backend)) :
    Effect config service (.save id now draws) (.saved upload.key reply)
      { service with finalized := assign service.finalized id none, backend }

theorem step_effect (config : UploadConfig υ μ π) (service : UploadService υ μ π)
    (event : UploadEvent υ) :
    Effect config service event (service.step config event).1 (service.step config event).2 := by
  cases event with
  | start id request now =>
    simp only [UploadService.step, UploadService.start]
    split
    · exact .refused
    · split
      · exact .refused
      · exact .started rfl
  | put request now =>
    simp only [UploadService.step, UploadService.resumablePut]
    split
    · exact .refused
    · rename_i id target
      split
      · exact .turnedAway
      · rename_i upload hu
        have held := (Option.filter_eq_some_iff.mp hu).1
        split
        · exact .cancelled target held
        · split
          · exact .queried
          · unfold UploadService.putChunk
            split
            · exact .turnedAway
            · split
              · exact .turnedAway
              · rename_i hfits
                have fits : upload.bytes.length + request.body.length ≤ maxUploadBytes := by
                  unfold usizeMax maxUploadBytes at *
                  omega
                dsimp only
                split
                · exact .received target held fits
                · exact .finalized target held fits
  | save id now draws =>
    simp only [UploadService.step, UploadService.save]
    split
    · exact .idle
    · rename_i upload contentType held
      exact .saved held rfl

/-- The service, and every event so far with its answer. -/
structure Recorded (υ μ π : Type) where
  service : UploadService υ μ π
  log : List (UploadEvent υ × UploadAnswer)

/-- What a log says of a session: whether it was started, the chunks accepted for it, and how
often it was cancelled, finalized and saved. -/
structure Session where
  opened : Bool
  chunks : List Bytes
  cancels : Nat
  finals : Nat
  saves : Nat

namespace Session

def unborn : Session := ⟨false, [], 0, 0, 0⟩

def note (parseUuid : String → Option υ) (id : υ) (session : Session) :
    UploadEvent υ × UploadAnswer → Session
  | (.start other _ _, .started) => if other = id then { session with opened := true } else session
  | (.put request _, .received _) =>
    if request.target parseUuid = some id then
      { session with chunks := session.chunks ++ [request.body] }
    else session
  | (.put request _, .finalized _) =>
    if request.target parseUuid = some id then
      { session with chunks := session.chunks ++ [request.body], finals := session.finals + 1 }
    else session
  | (.put request _, .cancelled) =>
    if request.target parseUuid = some id then { session with cancels := session.cancels + 1 }
    else session
  | (.save other _ _, .saved _ _) =>
    if other = id then { session with saves := session.saves + 1 } else session
  | _ => session

end Session

variable (config : UploadConfig υ μ π)

def session (id : υ) (log : List (UploadEvent υ × UploadAnswer)) : Session :=
  log.foldl (Session.note config.parseUuid id) .unborn

/-- The session whose save under a key was the last to be answered with the object. -/
def lastSaved (key : ObjectKey) (log : List (UploadEvent υ × UploadAnswer)) : Option υ :=
  log.foldl (fun last entry => match entry with
    | (.save id _ _, .saved other reply) => if other = key ∧ reply.isObject then some id else last
    | _ => last) none

namespace Recorded

def start (backend : Backend μ π) : Recorded υ μ π := ⟨⟨fun _ => none, fun _ => none, backend⟩, []⟩

def step (state : Recorded υ μ π) (event : UploadEvent υ) : Recorded υ μ π :=
  ⟨(state.service.step config event).2, state.log ++ [(event, (state.service.step config event).1)]⟩

/-- Ids and file names are new when they are drawn. -/
def Allowed (state : Recorded υ μ π) : UploadEvent υ → Prop
  | .start id _ _ => (session config id state.log).opened = false
  | .put _ _ => True
  | .save _ _ draws => state.service.backend.Fresh draws

/-- The states that requests in any order come to. -/
abbrev Reached (backend : Backend μ π) : Recorded υ μ π → Prop :=
  Reach (step config) (Allowed config) fun state => state = .start backend

end Recorded

/-- How far a session has come: what is held of it, and what the log says of it. -/
inductive Stage : Option PendingUpload → Option Finalized → Session → Prop where
  | unborn : Stage none none .unborn
  | opened {upload : PendingUpload} {chunks : List Bytes} (bytes : upload.bytes = chunks.flatten)
      (bounded : upload.bytes.length ≤ maxUploadBytes) :
    Stage (some upload) none ⟨true, chunks, 0, 0, 0⟩
  | expired {chunks : List Bytes} : Stage none none ⟨true, chunks, 0, 0, 0⟩
  | cancelled {chunks : List Bytes} : Stage none none ⟨true, chunks, 1, 0, 0⟩
  | finalized {final : Finalized} {chunks : List Bytes}
      (bytes : final.upload.bytes = chunks.flatten)
      (bounded : final.upload.bytes.length ≤ maxUploadBytes) :
    Stage none (some final) ⟨true, chunks, 0, 1, 0⟩
  | saved {chunks : List Bytes} : Stage none none ⟨true, chunks, 0, 1, 1⟩

theorem Stage.pruned {upload : Option PendingUpload} {final : Option Finalized}
    {session : Session} (h : Stage upload final session) (now : Nat) :
    Stage (upload.filter fun upload => upload.live now) final session := by
  cases h with
  | @opened upload chunks bytes bounded =>
    rw [Option.filter_some]
    split
    · exact .opened bytes bounded
    · exact .expired
  | unborn => exact .unborn
  | expired => exact .expired
  | cancelled => exact .cancelled
  | finalized bytes bounded => exact .finalized bytes bounded
  | saved => exact .saved

/-- Every session is at some stage, and each object has the bytes of the session that was saved
last under its key. -/
structure Assembled (backend : Backend μ π) (state : Recorded υ μ π) : Prop where
  sound : state.service.backend.Sound
  stages : ∀ id, Stage (state.service.uploads id) (state.service.finalized id)
    (session config id state.log)
  settled : ∀ key id, lastSaved key state.log = some id →
    (session config id state.log).saves = 1
  objects : ∀ key, state.service.backend.content key =
    (lastSaved key state.log).elim (backend.content key) fun id =>
      some (session config id state.log).chunks.flatten

variable {config} {backend : Backend μ π} {state : Recorded υ μ π}

theorem session_append (id : υ) (log : List (UploadEvent υ × UploadAnswer))
    (entry : UploadEvent υ × UploadAnswer) :
    session config id (log ++ [entry]) =
      Session.note config.parseUuid id (session config id log) entry := by
  rw [session, List.foldl_append]
  rfl

theorem Assembled.start (hs : backend.Sound) :
    Assembled config backend (.start backend : Recorded υ μ π) :=
  ⟨hs, fun _ => .unborn, fun _ _ h => (nomatch h), fun _ => rfl⟩

omit [DecidableEq υ] in
theorem lastSaved_append (key : ObjectKey) (log : List (UploadEvent υ × UploadAnswer))
    (event : UploadEvent υ) {answer : UploadAnswer}
    (h : ∀ other reply, answer ≠ .saved other reply) :
    lastSaved key (log ++ [(event, answer)]) = lastSaved key log := by
  rw [lastSaved, List.foldl_append]
  cases event <;> cases answer <;> first | rfl | exact absurd rfl (h _ _)

/-- The session that an event is about. -/
def UploadEvent.subject (parseUuid : String → Option υ) : UploadEvent υ → Option υ
  | .start id _ _ => some id
  | .put request _ => request.target parseUuid
  | .save id _ _ => some id

def UploadEvent.clock : UploadEvent υ → Option Nat
  | .start _ _ now => some now
  | .put _ now => some now
  | .save _ _ _ => none

/-- What an event on one session does to another. -/
theorem Effect.apart {service service' : UploadService υ μ π} {event : UploadEvent υ}
    {answer : UploadAnswer} (he : Effect config service event answer service') {id : υ}
    (hid : event.subject config.parseUuid ≠ some id) (session : Session) :
    (service'.uploads id = service.uploads id ∨ ∃ now, event.clock = some now ∧
      service'.uploads id = (service.uploads id).filter fun upload => upload.live now) ∧
    service'.finalized id = service.finalized id ∧
    session.note config.parseUuid id (event, answer) = session := by
  cases he with
  | refused => cases event <;> exact ⟨.inl rfl, rfl, rfl⟩
  | idle => exact ⟨.inl rfl, rfl, rfl⟩
  | @started other request now upload empty =>
    have hne : id ≠ other := fun h => hid (h ▸ rfl)
    simp only [assign, if_neg hne, Session.note, if_neg hne.symm]
    exact ⟨.inr ⟨now, rfl, rfl⟩, trivial, trivial⟩
  | @turnedAway request now => exact ⟨.inr ⟨now, rfl, rfl⟩, rfl, rfl⟩
  | @queried request now => exact ⟨.inr ⟨now, rfl, rfl⟩, rfl, rfl⟩
  | @cancelled request now other upload target held =>
    have hne : id ≠ other := fun h => hid (h ▸ target)
    simp only [assign, if_neg hne, Session.note, target, Option.some.injEq, if_neg hne.symm]
    exact ⟨.inr ⟨now, rfl, rfl⟩, trivial, trivial⟩
  | @received request now size other upload target held fits =>
    have hne : id ≠ other := fun h => hid (h ▸ target)
    simp only [assign, if_neg hne, Session.note, target, Option.some.injEq, if_neg hne.symm]
    exact ⟨.inr ⟨now, rfl, rfl⟩, trivial, trivial⟩
  | @finalized request now size other upload target held fits =>
    have hne : id ≠ other := fun h => hid (h ▸ target)
    simp only [assign, if_neg hne, Session.note, target, Option.some.injEq, if_neg hne.symm]
    exact ⟨.inr ⟨now, rfl, rfl⟩, trivial, trivial⟩
  | @saved other now draws upload contentType reply backend held saved =>
    have hne : id ≠ other := fun h => hid (h ▸ rfl)
    simp only [assign, if_neg hne, Session.note, if_neg hne.symm]
    exact ⟨.inl trivial, trivial, trivial⟩

/-- A session that was started and is not held is over: no event brings it back or adds a chunk. -/
theorem over_step {service service' : UploadService υ μ π} {event : UploadEvent υ}
    {answer : UploadAnswer} (he : Effect config service event answer service') {id : υ}
    {session : Session} (hu : service.uploads id = none) (ho : session.opened = true)
    (hfresh : ∀ request now, event ≠ .start id request now) :
    service'.uploads id = none ∧
      (session.note config.parseUuid id (event, answer)).opened = true ∧
      (session.note config.parseUuid id (event, answer)).chunks = session.chunks := by
  have hpruned : ∀ now, pruneExpiredUploads service.uploads now id = none := by
    intro now
    rw [pruneExpiredUploads, hu, Option.filter_none]
  by_cases hid : event.subject config.parseUuid = some id
  · -- a put finds nothing under the id, so it is turned away
    have hmissing : ∀ {request : PutRequest} {now : Nat} {other : υ} {upload : PendingUpload},
        request.target config.parseUuid = some id → request.target config.parseUuid = some other →
        pruneExpiredUploads service.uploads now other ≠ some upload := by
      intro request now other upload hid target held
      rw [target, Option.some.injEq] at hid
      rw [hid, hpruned] at held
      cases held
    cases he with
    | refused => cases event <;> exact ⟨hu, ho, rfl⟩
    | idle => exact ⟨hu, ho, rfl⟩
    | @started other request now upload empty =>
      obtain rfl := Option.some.inj hid
      exact absurd rfl (hfresh request now)
    | turnedAway => exact ⟨hpruned _, ho, rfl⟩
    | queried => exact ⟨hpruned _, ho, rfl⟩
    | cancelled target held => exact absurd held (hmissing hid target)
    | received target held => exact absurd held (hmissing hid target)
    | finalized target held => exact absurd held (hmissing hid target)
    | @saved other now draws upload contentType reply backend held saved =>
      obtain rfl := Option.some.inj hid
      simp [Session.note, hu, ho]
  · obtain ⟨huploads, -, hnote⟩ := he.apart hid session
    rw [hnote]
    refine ⟨?_, ho, rfl⟩
    rcases huploads with heq | ⟨now, -, heq⟩
    · rw [heq, hu]
    · rw [heq, hu, Option.filter_none]

omit [DecidableEq υ] in
/-- A session that is held is open. -/
theorem Stage.held {service : UploadService υ μ π} {id : υ} {session : Session} {now : Nat}
    {upload : PendingUpload} (h : Stage (service.uploads id) (service.finalized id) session)
    (held : pruneExpiredUploads service.uploads now id = some upload) :
    service.finalized id = none ∧ ∃ chunks, session = ⟨true, chunks, 0, 0, 0⟩ ∧
      upload.bytes = chunks.flatten := by
  have hpruned := h.pruned now
  rw [show (service.uploads id).filter (fun upload => upload.live now) = some upload from
    held] at hpruned
  generalize service.finalized id = final at hpruned
  cases hpruned with
  | opened bytes bounded => exact ⟨rfl, _, rfl, bytes⟩

/-- Each event takes each session from a stage to a stage. -/
theorem Stage.step {service service' : UploadService υ μ π} {event : UploadEvent υ}
    {answer : UploadAnswer} (he : Effect config service event answer service') {id : υ}
    {session : Session} (h : Stage (service.uploads id) (service.finalized id) session)
    (hfresh : ∀ request now, event = .start id request now → session.opened = false) :
    Stage (service'.uploads id) (service'.finalized id)
      (session.note config.parseUuid id (event, answer)) := by
  by_cases hid : event.subject config.parseUuid = some id
  · cases he with
    | refused => cases event <;> exact h
    | idle => exact h
    | @started other request now upload empty =>
      obtain rfl := Option.some.inj hid
      have hopened := hfresh request now rfl
      generalize service.uploads other = held at h
      generalize service.finalized other = final at h
      cases h with
      | unborn =>
        simp only [assign, if_true, Session.note]
        exact .opened (by rw [empty]; rfl) (by rw [empty]; exact Nat.zero_le _)
      | opened => cases hopened
      | expired => cases hopened
      | cancelled => cases hopened
      | finalized => cases hopened
      | saved => cases hopened
    | turnedAway => exact h.pruned _
    | queried => exact h.pruned _
    | @cancelled request now other upload target held =>
      obtain rfl := Option.some.inj (target.symm.trans hid)
      obtain ⟨hf, chunks, rfl, -⟩ := h.held held
      simp only [assign, if_true, hf, Session.note, target]
      exact .cancelled
    | @received request now size other upload target held fits =>
      obtain rfl := Option.some.inj (target.symm.trans hid)
      obtain ⟨hf, chunks, rfl, bytes⟩ := h.held held
      simp only [assign, if_true, hf, Session.note, target]
      exact .opened (by simp [bytes]) (by simpa using fits)
    | @finalized request now size other upload target held fits =>
      obtain rfl := Option.some.inj (target.symm.trans hid)
      obtain ⟨-, chunks, rfl, bytes⟩ := h.held held
      simp only [assign, if_true, Session.note, target]
      exact .finalized (by simp [bytes]) (by simpa using fits)
    | @saved other now draws upload contentType reply backend held saved =>
      obtain rfl := Option.some.inj hid
      rw [held] at h
      generalize service.uploads other = pending at h
      cases h with
      | finalized bytes bounded =>
        simp only [assign, if_true, Session.note]
        exact .saved
  · obtain ⟨huploads, hfinal, hnote⟩ := he.apart hid session
    rw [hnote, hfinal]
    rcases huploads with heq | ⟨now, -, heq⟩
    · rw [heq]
      exact h
    · rw [heq]
      exact h.pruned now

theorem Stage.final {upload : Option PendingUpload} {final : Finalized} {session : Session}
    (h : Stage upload (some final) session) : ∃ chunks, session = ⟨true, chunks, 0, 1, 0⟩ ∧
      final.upload.bytes = chunks.flatten := by
  cases h with
  | finalized bytes bounded => exact ⟨_, rfl, bytes⟩

/-- Only a save touches the objects. -/
theorem Effect.save_or {service service' : UploadService υ μ π} {event : UploadEvent υ}
    {answer : UploadAnswer} (he : Effect config service event answer service') :
    ((∀ key reply, answer ≠ .saved key reply) ∧ service'.backend = service.backend) ∨
      ∃ id now draws final reply, event = .save id now draws ∧
        answer = .saved final.upload.key reply ∧ service.finalized id = some final ∧
        service.backend.saveObject config.codec config.event final.upload.key final.upload.bytes
          final.upload.metadata final.contentType now draws = (reply, service'.backend) := by
  cases he with
  | saved held saved => exact .inr ⟨_, _, _, _, _, rfl, rfl, held, saved⟩
  | refused => exact .inl ⟨fun _ _ => nofun, rfl⟩
  | idle => exact .inl ⟨fun _ _ => nofun, rfl⟩
  | started => exact .inl ⟨fun _ _ => nofun, rfl⟩
  | turnedAway => exact .inl ⟨fun _ _ => nofun, rfl⟩
  | queried => exact .inl ⟨fun _ _ => nofun, rfl⟩
  | cancelled => exact .inl ⟨fun _ _ => nofun, rfl⟩
  | received => exact .inl ⟨fun _ _ => nofun, rfl⟩
  | finalized => exact .inl ⟨fun _ _ => nofun, rfl⟩

theorem Stage.saves_le {upload : Option PendingUpload} {final : Option Finalized}
    {session : Session} (h : Stage upload final session) :
    session.saves ≤ session.finals ∧ session.finals ≤ 1 := by
  cases h <;> simp [Session.unborn]

/-- A session that was saved is over. -/
theorem Stage.of_saves {upload : Option PendingUpload} {final : Option Finalized}
    {session : Session} (h : Stage upload final session) (hs : session.saves = 1) :
    upload = none ∧ final = none ∧ session.opened = true := by
  cases h with
  | saved => exact ⟨rfl, rfl, rfl⟩
  | unborn => cases hs
  | opened => cases hs
  | expired => cases hs
  | cancelled => cases hs
  | finalized => cases hs

theorem saves_le_note (config : UploadConfig υ μ π) (id : υ) (session : Session)
    (entry : UploadEvent υ × UploadAnswer) :
    session.saves ≤ (session.note config.parseUuid id entry).saves := by
  obtain ⟨event, answer⟩ := entry
  unfold Session.note
  split <;> (try split) <;> simp

namespace Assembled

theorem fresh {event : UploadEvent υ} (ha : state.Allowed config event) {id : υ}
    (request : StartRequest) (now : Nat) (he : event = .start id request now) :
    (session config id state.log).opened = false := by
  subst he
  exact ha

theorem step (h : Assembled config backend state) {event : UploadEvent υ}
    (ha : state.Allowed config event) : Assembled config backend (state.step config event) := by
  have he := step_effect config state.service event
  have hstages : ∀ id, Stage ((state.step config event).service.uploads id)
      ((state.step config event).service.finalized id)
      (session config id (state.step config event).log) := by
    intro id
    rw [Recorded.step, session_append]
    exact (h.stages id).step he (fresh ha)
  -- a session that was saved stays as it is
  have hkept : ∀ id, (session config id state.log).saves = 1 →
      (session config id (state.step config event).log).saves = 1 ∧
      (session config id (state.step config event).log).chunks =
        (session config id state.log).chunks := by
    intro id hs
    obtain ⟨hu, -, ho⟩ := (h.stages id).of_saves hs
    have hle := (hstages id).saves_le
    have hmono := saves_le_note config id (session config id state.log)
      (event, (state.service.step config event).1)
    have hover := over_step he hu ho fun request now heq => by
      rw [fresh ha request now heq] at ho
      cases ho
    rw [Recorded.step, session_append] at hle ⊢
    exact ⟨by omega, hover.2.2⟩
  rcases he.save_or with
    ⟨hplain, hbackend⟩ | ⟨id, now, draws, final, reply, rfl, hanswer, hheld, hsaved⟩
  · have hlast : ∀ key, lastSaved key (state.step config event).log = lastSaved key state.log :=
      fun key => lastSaved_append key state.log event hplain
    refine ⟨?_, hstages, fun key id hs => ?_, fun key => ?_⟩
    · show (state.service.step config event).2.backend.Sound
      rw [hbackend]
      exact h.sound
    · rw [hlast] at hs
      exact (hkept id (h.settled key id hs)).1
    · show (state.service.step config event).2.backend.content key = _
      rw [hbackend, h.objects, hlast]
      cases hs : lastSaved key state.log with
      | none => rfl
      | some id =>
        rw [Option.elim_some, Option.elim_some, (hkept id (h.settled key id hs)).2]
  · obtain ⟨hsound, hother, hown⟩ := Backend.saveObject_spec h.sound ha hsaved
    have hlast : ∀ key, lastSaved key (state.step config (.save id now draws)).log =
        if final.upload.key = key ∧ reply.isObject then some id else lastSaved key state.log := by
      intro key
      rw [Recorded.step, lastSaved, List.foldl_append, hanswer]
      rfl
    obtain ⟨chunks, hbefore, hbytes⟩ := (hheld ▸ h.stages id : Stage _ (some final) _).final
    have hafter : session config id (state.step config (.save id now draws)).log =
        ⟨true, chunks, 0, 1, 1⟩ := by
      rw [Recorded.step, session_append, hanswer, hbefore]
      simp [Session.note]
    have hcontent : ∀ key, (state.step config (.save id now draws)).service.backend.content key =
        if final.upload.key = key ∧ reply.isObject then some final.upload.bytes
        else state.service.backend.content key := by
      intro key
      by_cases hkey : final.upload.key = key
      · subst hkey
        simp only [true_and]
        exact hown
      · rw [if_neg fun hc => hkey hc.1]
        exact hother key hkey
    refine ⟨hsound, hstages, fun key other hs => ?_, fun key => ?_⟩
    · rw [hlast] at hs
      split at hs
      · obtain rfl := Option.some.inj hs
        rw [hafter]
      · exact (hkept other (h.settled key other hs)).1
    · rw [hcontent, hlast]
      split
      · rw [Option.elim_some, hafter, hbytes]
      · rw [h.objects]
        cases hs : lastSaved key state.log with
        | none => rfl
        | some other =>
          rw [Option.elim_some, Option.elim_some, (hkept other (h.settled key other hs)).2]

/-- In every state that is reached the chunks are assembled. -/
theorem reached (hs : backend.Sound) (h : Recorded.Reached config backend state) :
    Assembled config backend state := by
  refine Reach.invariant ?_ (fun state event h ha => h.step ha) h
  rintro state rfl
  exact .start hs

end Assembled

/-- What a chunk must not be: for another bucket, at another offset, or too long. -/
def PutRequest.Misfits (request : PutRequest) (upload : PendingUpload) : Prop :=
  upload.bucket ≠ request.bucket ∨ request.isChunk = true ∧
    ((∃ offset, request.offsetNumber = some offset ∧ offset ≠ upload.bytes.length) ∨
      maxUploadBytes < upload.bytes.length + request.body.length)

/-- A misfit is rejected, and the session stays as it was. -/
theorem resumablePut_misfit {service : UploadService υ μ π} {request : PutRequest} {now : Nat}
    {id : υ} {upload : PendingUpload} (target : request.target config.parseUuid = some id)
    (held : service.uploads id = some upload) (live : upload.live now = true)
    (hm : request.Misfits upload) :
    (∃ code message, (service.resumablePut config request now).1 = .refused code message) ∧
      (service.resumablePut config request now).2.uploads id = some upload := by
  have hpruned : pruneExpiredUploads service.uploads now id = some upload := by
    rw [pruneExpiredUploads, held, Option.filter_some, if_pos live]
  by_cases hbucket : upload.bucket = request.bucket
  · obtain ⟨hchunk, hbad⟩ := hm.resolve_left (not_not_intro hbucket)
    simp only [PutRequest.isChunk, Bool.and_eq_true, bne_iff_ne] at hchunk
    have hfilter : (some upload).filter (fun upload => upload.bucket == request.bucket) =
        some upload := by
      rw [Option.filter_some, if_pos (by simpa using hbucket)]
    simp only [UploadService.resumablePut, target, hpruned, hfilter, if_neg hchunk.1,
      if_neg hchunk.2, UploadService.putChunk]
    split
    · exact ⟨⟨_, _, rfl⟩, hpruned⟩
    · rename_i hoffset
      split
      · exact ⟨⟨_, _, rfl⟩, hpruned⟩
      · rename_i hfits
        rcases hbad with ⟨offset, ho, hne⟩ | hlong
        · simp [ho, hne] at hoffset
        · unfold usizeMax maxUploadBytes at *
          omega
  · have hfilter : (some upload).filter (fun upload => upload.bucket == request.bucket) = none := by
      rw [Option.filter_some, if_neg (by simpa using hbucket)]
    simp only [UploadService.resumablePut, target, hpruned, hfilter]
    exact ⟨⟨_, _, rfl⟩, trivial⟩

/-- A session that is not held, or no longer, is not found. -/
theorem resumablePut_missing {service : UploadService υ μ π} {request : PutRequest} {now : Nat}
    {id : υ} (target : request.target config.parseUuid = some id)
    (held : ∀ upload, service.uploads id = some upload → upload.live now = false) :
    (service.resumablePut config request now).1 = .refused 404 "upload session not found" ∧
      (service.resumablePut config request now).2.uploads id = none := by
  have hpruned : pruneExpiredUploads service.uploads now id = none := by
    rw [pruneExpiredUploads]
    cases hu : service.uploads id with
    | none => rfl
    | some upload => rw [Option.filter_some, held upload hu]; rfl
  simp only [UploadService.resumablePut, target, hpruned, Option.filter_none]
  exact ⟨trivial, trivial⟩

theorem Stage.bytes_opened {upload : PendingUpload} {final : Option Finalized} {session : Session}
    (h : Stage (some upload) final session) :
    upload.bytes = session.chunks.flatten ∧ upload.bytes.length ≤ maxUploadBytes := by
  cases h with
  | opened bytes bounded => exact ⟨bytes, bounded⟩

theorem Stage.bytes_finalized {upload : Option PendingUpload} {final : Finalized}
    {session : Session} (h : Stage upload (some final) session) :
    final.upload.bytes = session.chunks.flatten ∧
      final.upload.bytes.length ≤ maxUploadBytes := by
  cases h with
  | finalized bytes bounded => exact ⟨bytes, bounded⟩

theorem Stage.closed {upload : Option PendingUpload} {final : Option Finalized}
    {session : Session} (h : Stage upload final session)
    (hc : session.cancels ≠ 0 ∨ session.finals ≠ 0) : upload = none := by
  cases h with
  | opened => simp at hc
  | unborn => rfl
  | expired => rfl
  | cancelled => rfl
  | finalized => rfl
  | saved => rfl

/-- What holds of the sessions and of their objects in a state. -/
structure SessionLaws (config : UploadConfig υ μ π) (backend : Backend μ π)
    (state : Recorded υ μ π) : Prop where
  /-- A session has received its accepted chunks, and no more than the limit. -/
  received : ∀ id upload, state.service.uploads id = some upload →
    upload.bytes = (session config id state.log).chunks.flatten ∧
      upload.bytes.length ≤ maxUploadBytes
  /-- So has one that is finalized and about to be saved. -/
  finalized : ∀ id final, state.service.finalized id = some final →
    final.upload.bytes = (session config id state.log).chunks.flatten ∧
      final.upload.bytes.length ≤ maxUploadBytes
  rejected : ∀ request now id upload, request.target config.parseUuid = some id →
    state.service.uploads id = some upload → upload.live now = true → request.Misfits upload →
      (∃ code message, (state.service.resumablePut config request now).1 =
        .refused code message) ∧
      (state.service.resumablePut config request now).2.uploads id = some upload
  /-- Each object has the bytes of the session that was the last to be saved under its key. -/
  objects : ∀ key, state.service.backend.content key =
    (lastSaved key state.log).elim (backend.content key) fun id =>
      some (session config id state.log).chunks.flatten
  once : ∀ id, (session config id state.log).finals ≤ 1 ∧
    (session config id state.log).saves ≤ (session config id state.log).finals
  /-- A session that was cancelled or finalized is no longer held. -/
  closed : ∀ id, (session config id state.log).cancels ≠ 0 ∨
    (session config id state.log).finals ≠ 0 → state.service.uploads id = none
  /-- What is not held, or has expired, is not found, and what has expired is dropped. -/
  missing : ∀ request now id, request.target config.parseUuid = some id →
    (∀ upload, state.service.uploads id = some upload → upload.live now = false) →
      (state.service.resumablePut config request now).1 =
        .refused 404 "upload session not found" ∧
      (state.service.resumablePut config request now).2.uploads id = none
  /-- A session that is no longer held never is again, and gets no more chunks. -/
  ended : ∀ id, (session config id state.log).opened = true → state.service.uploads id = none →
    ∀ later, Reach (Recorded.step config) (Recorded.Allowed config) (fun s => s = state) later →
      later.service.uploads id = none ∧
        (session config id later.log).chunks = (session config id state.log).chunks
  /-- An event on one session leaves another as it is, or drops it when it has expired. -/
  apart : ∀ event id, event.subject config.parseUuid ≠ some id →
    ((state.step config event).service.uploads id = state.service.uploads id ∨
      ∃ now, event.clock = some now ∧ (state.step config event).service.uploads id =
        (state.service.uploads id).filter fun upload => upload.live now) ∧
    (state.step config event).service.finalized id = state.service.finalized id ∧
    session config id (state.step config event).log = session config id state.log
  /-- It leaves every object but its session's own. -/
  objects_apart : ∀ event key, state.Allowed config event →
    (∀ id final, event.subject config.parseUuid = some id →
      state.service.finalized id = some final → final.upload.key ≠ key) →
    (state.step config event).service.backend.content key = state.service.backend.content key

/-- Resumable uploads assemble exactly the accepted chunks, whatever the order of the requests on
any number of sessions. -/
theorem resumable_uploads_assemble (config : UploadConfig υ μ π) {backend : Backend μ π}
    (hs : backend.Sound) {state : Recorded υ μ π} (h : Recorded.Reached config backend state) :
    SessionLaws config backend state := by
  have hall := Assembled.reached hs h
  have hrange : ∀ id, (session config id state.log).saves ≤ (session config id state.log).finals ∧
      (session config id state.log).finals ≤ 1 := fun id => (hall.stages id).saves_le
  refine
    { received := fun id upload hu => ?_
      finalized := fun id final hf => ?_
      rejected := fun request now id upload target held live hm =>
        resumablePut_misfit target held live hm
      objects := hall.objects
      once := fun id => ⟨(hrange id).2, (hrange id).1⟩
      closed := fun id hc => ?_
      missing := fun request now id target held => resumablePut_missing target held
      ended := fun id ho hu later hl => ?_
      apart := fun event id hid => ?_
      objects_apart := fun event key ha hkey => ?_ }
  · exact (hu ▸ hall.stages id : Stage (some upload) _ _).bytes_opened
  · exact (hf ▸ hall.stages id : Stage _ (some final) _).bytes_finalized
  · exact (hall.stages id).closed hc
  · have hover : later.service.uploads id = none ∧ (session config id later.log).opened = true ∧
        (session config id later.log).chunks = (session config id state.log).chunks := by
      refine Reach.invariant (I := fun later : Recorded υ μ π => later.service.uploads id = none ∧
        (session config id later.log).opened = true ∧
        (session config id later.log).chunks = (session config id state.log).chunks)
        ?_ (fun later event h ha => ?_) hl
      · rintro later rfl
        exact ⟨hu, ho, rfl⟩
      · obtain ⟨hu', ho', hc'⟩ := h
        have hstep := over_step (step_effect config later.service event) hu' ho'
          fun request now heq => by
            rw [Assembled.fresh ha request now heq] at ho'
            cases ho'
        rw [Recorded.step, session_append, ← hc']
        exact hstep
    exact ⟨hover.1, hover.2.2⟩
  · rw [Recorded.step, session_append]
    exact (step_effect config state.service event).apart hid _
  · rcases (step_effect config state.service event).save_or with
      ⟨-, hbackend⟩ | ⟨id, now, draws, final, reply, rfl, -, hheld, hsaved⟩
    · show (state.service.step config event).2.backend.content key = _
      rw [hbackend]
    · exact (Backend.saveObject_spec hall.sound ha hsaved).2.1 key (hkey id final rfl hheld)

/-- Ids in the form in which they are drawn. -/
def plainUploadConfig : UploadConfig String StoredMetadata Unit where
  codec := plainStorageCodec
  event := fun _ _ => ()
  parseUuid text := if canonicalUuid text then some text else none
  readMetadata _ := .error "EOF while parsing a value at line 1 column 0"

def sampleStart (id : String) : UploadEvent String :=
  .start id ⟨"bucket", some "file", none, []⟩ 1700000000

def samplePut (id : String) (command offset : Option String) (body : Bytes) :
    UploadEvent String :=
  .put ⟨"bucket", some id, command, offset, none, body⟩ 1700000001

def sampleSaving (id : String) : UploadEvent String := .save id "now" ⟨id, "upload.tmp", "token"⟩

def sampleUploads (events : List (UploadEvent String)) : Recorded String StoredMetadata Unit :=
  events.foldl (Recorded.step plainUploadConfig) (.start (.memory .empty))

theorem resumable_uploads_assemble_sample :
    SessionLaws plainUploadConfig (.memory .empty) (sampleUploads [sampleStart sampleBlob,
      samplePut sampleBlob (some "upload") (some "0") [1, 2],
      samplePut sampleBlob (some "upload, finalize") (some "2") [3], sampleSaving sampleBlob]) := by
  have hallowed : Reach.Along (Recorded.step plainUploadConfig)
      (Recorded.Allowed plainUploadConfig) (.start (.memory .empty)) [sampleStart sampleBlob,
        samplePut sampleBlob (some "upload") (some "0") [1, 2],
        samplePut sampleBlob (some "upload, finalize") (some "2") [3], sampleSaving sampleBlob] :=
    ⟨rfl, trivial, trivial, trivial, trivial⟩
  have hstart : Recorded.Reached plainUploadConfig (.memory .empty)
      (Recorded.start (.memory .empty) : Recorded String StoredMetadata Unit) := .start rfl
  exact @resumable_uploads_assemble _ _ _ _ plainUploadConfig (.memory .empty) trivial _
    (hstart.run hallowed)

/-- Two sessions for one name: the one that is finalized later replaces the other's object. And an
offset that is no `usize` is none. -/
theorem sessions_share_an_object :
    (sampleUploads [sampleStart sampleBlob, sampleStart sampleNextBlob,
      samplePut sampleBlob none none [1], sampleSaving sampleBlob]).service.backend.content
        ⟨"bucket", "file"⟩ = some [1] ∧
    (sampleUploads [sampleStart sampleBlob, sampleStart sampleNextBlob,
      samplePut sampleBlob none none [1], sampleSaving sampleBlob,
      samplePut sampleNextBlob none none [2], sampleSaving sampleNextBlob]).service.backend.content
        ⟨"bucket", "file"⟩ = some [2] ∧
    ((sampleUploads [sampleStart sampleBlob, samplePut sampleBlob (some "upload")
      (some "18446744073709551616") [1]]).service.uploads sampleBlob).map PendingUpload.bytes =
        some [1] := by
  decide

end FirebaseEmu.Storage
