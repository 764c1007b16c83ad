import FirebaseEmu.Firestore.ChannelDelivery

namespace FirebaseEmu.Firestore.Channel
open Lib Std Web

variable {β : Type} (config : ChannelConfig β)

/-- The documents that are read for targets, one await after the other, up to a failure. -/
def readings : List (Int32 × Target) → List (Moment β) → List (Int32 × Target × List Document)
  | [], _ => []
  | (id, target) :: rest, moments =>
    match readTarget config target.spec moments with
    | some (.ok documents, moments) => (id, target, documents) :: readings rest moments
    | _ => []

/-- The client gets the error of a rejected message, and the changes of the targets that the
session had before it. -/
structure Unharmed (before after : Session) (status : Status) (aid : Nat)
    (moments : List (Moment β)) : Prop where
  targets : after.targets = before.targets
  delivered : ∃ messages : List (Nat × Json),
    (poll config .listen after aid moments).1 = .messages messages ∧
    (after.seq, errorJson status) ∈ messages ∧
    ∀ reading ∈ readings config before.targets.toList moments,
      ∀ change ∈ targetChanges config (timeJson config.formats (moments.head?.map Moment.now))
        reading.1 reading.2.1.documents reading.2.2, ∃ number, (number, change) ∈ messages

/-- The rejected target has no id, or the session has it already with no documents; the targets
that the session has can be read; and the error is not acknowledged before it is sent. -/
structure Harmless (session : Session) (target : Json) (aid : Nat) (moments : List (Moment β)) :
    Prop where
  unread : aid ≤ session.seq + if (target.get "targetId").asI64.isSome then 1 else 0
  known : ∀ targetId, (target.get "targetId").asI64 = some targetId →
    session.targets[targetId.toInt32]? = some ⟨target, ∅⟩
  readable : readAll config session.targets.toList moments = .done ()

theorem Session.Extends.mem {a b : Session} (h : a.Extends b) {entry : Nat × Json}
    (he : entry ∈ a.messages) (hle : entry.1 ≤ a.seq) : entry ∈ b.messages := by
  obtain ⟨⟨values, hvalues⟩, -⟩ := h
  have hkept : ∀ (values : List Json) (q : Numbered Json), entry ∈ q.messages → entry.1 ≤ q.seq →
      entry ∈ (values.foldl Numbered.push q).messages := by
    intro values
    induction values with
    | nil => exact fun q hq _ => hq
    | cons value values ih =>
      intro q hq hle
      exact ih (q.push value) (Numbered.mem_push_of_le hq hle value) (Nat.le_succ_of_le hle)
  rw [hvalues]
  exact hkept values _ he hle

/-- A message that was pushed after a number was given out, and is kept. -/
def Session.Tells (session : Session) (floor : Nat) (value : Json) : Prop :=
  ∃ number, floor < number ∧ number ≤ session.seq ∧ (number, value) ∈ session.messages

theorem Session.Tells.extends {a b : Session} {floor : Nat} {value : Json}
    (h : a.Tells floor value) (he : a.Extends b) : b.Tells floor value := by
  obtain ⟨number, hlow, hhigh, hmem⟩ := h
  exact ⟨number, hlow, Nat.le_trans hhigh he.seq_le, he.mem hmem hhigh⟩

theorem foldl_push_tells {values : List Json} {value : Json} (h : value ∈ values)
    (session : Session) : (values.foldl Session.push session).Tells session.seq value := by
  induction values generalizing session with
  | nil => cases h
  | cons first values ih =>
    rw [List.foldl_cons]
    rcases List.mem_cons.mp h with rfl | h
    · have hpushed : (session.push value).Tells session.seq value :=
        ⟨session.seq + 1, Nat.lt_succ_self _, Nat.le_refl _, Numbered.mem_push_self _ _⟩
      exact hpushed.extends ((Session.Extends.refl _).pushes values)
    · obtain ⟨number, hlow, hrest⟩ := ih h (session.push first)
      exact ⟨number, Nat.lt_of_succ_lt hlow, hrest⟩

theorem refreshTarget_tells (readTime : Json) (initial : Bool) (id : Int32) (target : Target)
    (documents : List Document) (session : Session) {change : Json}
    (h : change ∈ targetChanges config readTime id target.documents documents) :
    (refreshTarget config readTime initial id target documents session).Tells session.seq
      change := by
  unfold refreshTarget
  have htold := foldl_push_tells h { session with
    targets := session.targets.insert id { target with documents := byName documents } }
  dsimp only
  split
  · exact htold.extends ((Session.Extends.refl _).push _)
  · exact htold

/-- The loop tells the changes of every target that it gets to read. -/
theorem refreshTargets_tells (readTime : Json) (initial : Bool)
    {entries : List (Int32 × Target)} (hnodup : (entries.map Prod.fst).Nodup) (changed : Bool)
    {session : Session} (hheld : ∀ e ∈ entries, session.targets[e.1]? = some e.2)
    {moments : List (Moment β)} {reading : Int32 × Target × List Document}
    (hr : reading ∈ readings config entries moments) {change : Json}
    (hc : change ∈ targetChanges config readTime reading.1 reading.2.1.documents reading.2.2) :
    (refreshTargets config readTime initial (entries.map Prod.fst) changed session
      moments).session.Tells session.seq change := by
  induction entries generalizing changed session moments with
  | nil => cases hr
  | cons entry entries ih =>
    obtain ⟨id, target⟩ := entry
    rw [List.map_cons, List.nodup_cons] at hnodup
    rw [List.forall_mem_cons] at hheld
    unfold readings at hr
    rw [List.map_cons, refreshTargets]
    simp only [hheld.1]
    split at hr
    · rename_i documents rest hread
      simp only [hread]
      have hstep := refreshTarget_extends config readTime initial id target documents session
      rcases List.mem_cons.mp hr with rfl | hr
      · exact (refreshTarget_tells config readTime initial id target documents session hc).extends
          (refreshTargets_extends config readTime initial _ _ _ _)
      · have hheld := refreshTarget_held config readTime initial hnodup.1 target documents hheld.2
        obtain ⟨number, hlow, htold⟩ := ih hnodup.2 _ hheld hr
        exact ⟨number, Nat.lt_of_le_of_lt hstep.seq_le hlow, htold⟩
    · cases hr

theorem refresh_tells (session : Session) {moments : List (Moment β)}
    {reading : Int32 × Target × List Document}
    (hr : reading ∈ readings config session.targets.toList moments) {change : Json}
    (hc : change ∈ targetChanges config (timeJson config.formats (moments.head?.map Moment.now))
      reading.1 reading.2.1.documents reading.2.2) :
    (refresh config session none moments).session.Tells session.seq change := by
  have htold := refreshTargets_tells config (timeJson config.formats (moments.head?.map Moment.now))
    false session.nodup_targets false session.holds_targets hr hc
  rw [ExtTreeMap.map_fst_toList_eq_keys] at htold
  unfold refresh
  dsimp only [Session.refreshed]
  split
  · dsimp only
    split
    · exact htold.extends ((Session.Extends.refl _).push _)
    · exact htold
  · exact htold
  · exact htold
  · exact htold

/-- A target that cannot be read is not told of. -/
theorem refreshTargets_failed {readTime : Json} {initial changed : Bool} {session : Session}
    {id : Int32} {moments : List (Moment β)} {status : Status}
    (h : (refreshTargets config readTime initial [id] changed session moments).outcome =
      .failed status) :
    (refreshTargets config readTime initial [id] changed session moments).session = session := by
  unfold refreshTargets at h ⊢
  cases hheld : session.targets[id]? with
  | none => rfl
  | some target =>
    simp only [hheld] at h ⊢
    cases hread : readTarget config target.spec moments with
    | none => rfl
    | some answer =>
      obtain ⟨documents, rest⟩ := answer
      cases documents with
      | error status => rfl
      | ok documents =>
        simp only [hread] at h
        cases h

theorem refresh_failed {session : Session} {id : Int32} {moments : List (Moment β)}
    {status : Status} (h : (refresh config session (some id) moments).outcome = .failed status) :
    (refresh config session (some id) moments).session = session := by
  unfold refresh at h ⊢
  dsimp only [Session.refreshed] at h ⊢
  split at h
  · cases h
  · rename_i failure hfailed
    exact refreshTargets_failed config hfailed
  · cases h
  · cases h

/-- What a rejected message leaves. -/
def rejected (session : Session) (target : Json) : Session :=
  match (target.get "targetId").asI64 with
  | none => session
  | some targetId =>
    { session with
      targets := session.targets.insert targetId.toInt32 ⟨target, ∅⟩ }.push
        (targetChange "ADD" [targetId.toInt32.toInt64] none)

theorem addTarget_failed {session : Session} {target : Json} {moments : List (Moment β)}
    {status : Status} (h : (addTarget config session target moments).outcome = .failed status) :
    (addTarget config session target moments).session = rejected session target := by
  unfold addTarget rejected at *
  cases hid : (target.get "targetId").asI64 with
  | none => rfl
  | some targetId =>
    simp only [hid] at h
    exact refresh_failed config h

/-- The session after a batch of one message that is rejected. -/
theorem postMessages_rejected {session : Session} {id : UInt64} (hid : id ∉ session.received)
    {message target : Json} (ha : message.find? "addTarget" = some target)
    {moments : List (Moment β)} {status : Status}
    (h : (process config .listen { session with received := id :: session.received } message
      moments).outcome = .failed status) :
    (postMessages config .listen [(id, message)] session moments).session =
      (rejected { session with received := id :: session.received } target).push
        (errorJson status) := by
  have hprocess : (process config .listen { session with received := id :: session.received }
      message moments).session =
        rejected { session with received := id :: session.received } target := by
    unfold process at h ⊢
    simp only [ha] at h ⊢
    exact addTarget_failed config h
  rw [postMessages, if_neg hid]
  simp only [h, hprocess]
  rfl

theorem rejected_targets (session : Session) (target : Json) :
    (rejected session target).targets = session.targets ↔
      ∀ targetId, (target.get "targetId").asI64 = some targetId →
        session.targets[targetId.toInt32]? = some ⟨target, ∅⟩ := by
  unfold rejected
  cases hid : (target.get "targetId").asI64 with
  | none => simp
  | some targetId =>
    dsimp only [Session.push]
    constructor
    · intro heq other hother
      obtain rfl := Option.some.inj hother
      rw [← heq]
      exact ExtTreeMap.getElem?_insert_self
    · intro hknown
      apply ExtTreeMap.ext_getElem?
      intro other
      rw [ExtTreeMap.getElem?_insert]
      split
      · rename_i heq
        rw [Std.compare_eq_iff_eq] at heq
        rw [← heq, hknown targetId rfl]
      · rfl

theorem rejected_seq (session : Session) (target : Json) : (rejected session target).seq =
    session.seq + if (target.get "targetId").asI64.isSome then 1 else 0 := by
  unfold rejected
  cases (target.get "targetId").asI64 with
  | none => rfl
  | some targetId => rfl

/-- A poll answers with all that is behind its acknowledgement once the targets were read. -/
theorem poll_readable {session : Session} {moments : List (Moment β)}
    (h : readAll config session.targets.toList moments = .done ()) (aid : Nat) :
    (poll config .listen session aid moments).1 =
      (answerQueued (refresh config session none moments).session aid).1 := by
  rw [← refresh_all_outcome] at h
  unfold poll
  simp only [h]

/-- A poll that answers has read the targets. -/
theorem readable_of_poll {session : Session} {moments : List (Moment β)} {aid : Nat}
    {messages : List (Nat × Json)}
    (h : (poll config .listen session aid moments).1 = .messages messages) :
    readAll config session.targets.toList moments = .done () := by
  rw [← refresh_all_outcome]
  unfold poll at h
  dsimp only at h
  split at h
  · assumption
  · cases h
  · cases h
  · cases h

/-- What is kept behind an acknowledgement is in the answer. -/
theorem answerQueued_mem {session : Session} {entry : Nat × Json} (he : entry ∈ session.messages)
    {aid : Nat} (ha : aid < entry.1) :
    (answerQueued session aid).1 = .messages (session.trimmed aid).messages ∧
      entry ∈ (session.trimmed aid).messages := by
  have hmem : entry ∈ (session.trimmed aid).messages :=
    List.mem_filter.mpr ⟨he, decide_eq_true ha⟩
  refine ⟨?_, hmem⟩
  rw [answerQueued_eq, if_neg]
  rw [List.isEmpty_iff]
  exact List.ne_nil_of_mem hmem

theorem lt_of_answered {session : Session} {aid : Nat} {messages : List (Nat × Json)}
    (h : (answerQueued session aid).1 = .messages messages) {entry : Nat × Json}
    (he : entry ∈ messages) : aid < entry.1 := by
  rw [answerQueued_eq] at h
  dsimp only at h
  split at h
  · cases h
  · cases h
    exact of_decide_eq_true (List.mem_filter.mp he).2

/-- The rejection of a target leaves the channel unharmed exactly when it is harmless. -/
theorem rejected_target_unharmed (session : Session) {id : UInt64} (hid : id ∉ session.received)
    {message target : Json} (ha : message.find? "addTarget" = some target)
    {moments : List (Moment β)} {status : Status}
    (hfailed : (process config .listen { session with received := id :: session.received } message
      moments).outcome = .failed status) (aid : Nat) (later : List (Moment β)) :
    Unharmed config session (postMessages config .listen [(id, message)] session moments).session
      status aid later ↔ Harmless config session target aid later := by
  rw [postMessages_rejected config hid ha hfailed]
  have hknown := rejected_targets { session with received := id :: session.received } target
  have hseq := rejected_seq { session with received := id :: session.received } target
  generalize rejected { session with received := id :: session.received } target = left
    at hknown hseq
  dsimp only at hknown hseq
  have hafter : (left.push (errorJson status)).targets = left.targets := rfl
  have hnumber : (left.push (errorJson status)).seq = left.seq + 1 := rfl
  constructor
  · rintro ⟨htargets, messages, hpoll, herror, -⟩
    have hread := readable_of_poll config hpoll
    rw [poll_readable config hread] at hpoll
    have haid := lt_of_answered hpoll herror
    rw [htargets] at hread
    refine ⟨?_, hknown.mp htargets, hread⟩
    rw [hnumber, hseq] at haid
    exact Nat.le_of_lt_succ haid
  · rintro ⟨hunread, hheld, hread⟩
    have htargets := hknown.mpr hheld
    have haid : aid < (left.push (errorJson status)).seq := by
      rw [hnumber, hseq]
      exact Nat.lt_succ_of_le hunread
    rw [← htargets, ← hafter] at hread
    have hextends := refresh_extends config (left.push (errorJson status)) none later
    have herror : ((left.push (errorJson status)).seq, errorJson status) ∈
        (refresh config (left.push (errorJson status)) none later).session.messages :=
      hextends.mem (Numbered.mem_push_self _ _) (Nat.le_refl _)
    obtain ⟨hanswer, hmem⟩ := answerQueued_mem herror haid
    refine ⟨htargets, _, (poll_readable config hread aid).trans hanswer, hmem, ?_⟩
    intro reading hr change hc
    rw [← htargets, ← hafter] at hr
    obtain ⟨number, hlow, -, htold⟩ := refresh_tells config _ hr hc
    exact ⟨number, (answerQueued_mem htold (Nat.lt_trans haid hlow)).2⟩

/-- A target without an id. -/
theorem rejected_target_unharmed_sample : Unharmed sampleChannel (.start "")
    (postMessages sampleChannel .listen [(0, .object [("addTarget", .object [])])] (.start "")
      []).session (invalidArgument "targetId required") 0 [] := by
  apply (rejected_target_unharmed sampleChannel (.start "") (by simp [Session.start]) rfl rfl 0
    []).mpr
  refine ⟨Nat.zero_le _, ?_, rfl⟩
  intro targetId hid
  cases hid

/-- A query in no known order: the poll for its error is refused. -/
theorem rejected_target_harms :
    ¬ ∀ (config : ChannelConfig Document) (session : Session) (id : UInt64) (message target : Json)
      (moments : List (Moment Document)) (status : Status) (aid : Nat)
      (later : List (Moment Document)), id ∉ session.received →
      message.find? "addTarget" = some target →
      (process config .listen { session with received := id :: session.received } message
        moments).outcome = .failed status →
      aid ≤ session.seq → readAll config session.targets.toList later = .done () →
      Unharmed config session (postMessages config .listen [(id, message)] session moments).session
        status aid later := by
  intro h
  have hfailed : (process sampleChannel .listen { Session.start "" with received := [0] }
      (.object [("addTarget", poorTarget)]) []).outcome =
        .failed (invalidArgument "invalid order direction") := rfl
  obtain ⟨-, messages, hpoll, -⟩ := h sampleChannel (.start "") 0 _ poorTarget [] _ 0 []
    (by simp [Session.start]) rfl hfailed (Nat.zero_le _) rfl
  cases poll_poorSession.symm.trans hpoll

end FirebaseEmu.Firestore.Channel
