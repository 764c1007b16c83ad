import FirebaseEmu.Firestore.ChannelRuns
import FirebaseEmu.Firestore.Sample

namespace FirebaseEmu.Firestore.Channel
open Lib Std Web

variable {β : Type} (config : ChannelConfig β)

/-- A request on a session. A poll is its rounds and, when it has waited for too long, its end;
the requests of several clients come in any order. -/
inductive ChannelEvent (β : Type) where
  | post (handshake : Bool) (rpc : Rpc) (body : Bytes) (moments : List (Moment β))
  | poll (rpc : Rpc) (aid : Option String) (moments : List (Moment β))
  | timeout (aid : Option String)

/-- The acknowledgement of a poll, or of its end. -/
def ChannelEvent.aid : ChannelEvent β → Option Nat
  | .post _ _ _ _ => none
  | .poll _ aid _ => some (aidOf aid)
  | .timeout aid => some (aidOf aid)

/-- An event with its answer, and the number of the last message by then. -/
structure Entry (β : Type) where
  event : ChannelEvent β
  answer : Answer
  seq : Nat

/-- A session, the ids of all messages that were processed, and what was answered. -/
structure Recorded (β : Type) where
  session : Session
  processed : List UInt64
  log : List (Entry β)

namespace Recorded

def start (database : String) : Recorded β := ⟨.start database, [], []⟩

def step (state : Recorded β) (event : ChannelEvent β) : Recorded β :=
  match event with
  | .post handshake rpc body moments =>
    let (answer, session, processed) := Channel.post config handshake rpc state.session body moments
    ⟨session, state.processed ++ processed, state.log ++ [⟨event, answer, session.seq⟩]⟩
  | .poll rpc aid moments =>
    let (answer, session) := Channel.poll config rpc state.session (aidOf aid) moments
    ⟨session, state.processed, state.log ++ [⟨event, answer, session.seq⟩]⟩
  | .timeout aid =>
    let (answer, session) := Channel.timeout state.session (aidOf aid)
    ⟨session, state.processed, state.log ++ [⟨event, answer, session.seq⟩]⟩

/-- No poll acknowledges what was not sent. -/
def Polite (state : Recorded β) (event : ChannelEvent β) : Prop :=
  ∀ aid, event.aid = some aid → aid ≤ state.session.seq

/-- When a poll refreshes the targets, the documents of each can be read. -/
def Readable (state : Recorded β) : ChannelEvent β → Prop
  | .poll .listen _ moments =>
    ∀ status, readAll config state.session.targets.toList moments ≠ .failed status
  | _ => True

abbrev Reached (allowed : Recorded β → ChannelEvent β → Prop) (database : String) :
    Recorded β → Prop :=
  Reach (step config) allowed fun state => state = .start database

end Recorded

/-- The acknowledgement that a session has seen: a poll that was dropped did not come so far. -/
def Entry.seen (entry : Entry β) : Nat :=
  match entry.answer with
  | .dropped => 0
  | _ => entry.event.aid.getD 0

/-- The largest acknowledgement seen. -/
def seen (log : List (Entry β)) : Nat := log.foldl (fun largest entry => max largest entry.seen) 0

/-- The answer to a poll: the messages behind its acknowledgement, or none when there are none. -/
inductive Answered (history : List Json) (aid seq : Nat) : Answer → Prop
  | messages {messages : List (Nat × Json)} (filled : messages ≠ [])
    (delivers : Numbered.Delivers history aid seq messages) :
    Answered history aid seq (.messages messages)
  | waiting (nothing : seq = aid) : Answered history aid seq .waiting

/-- Each poll that was not dropped and acknowledges as much as any before it is answered with the
messages behind its acknowledgement. -/
def AllAnswered (history : List Json) (log : List (Entry β)) : Prop :=
  ∀ (i : Nat) (entry : Entry β) (aid : Nat), log[i]? = some entry → entry.event.aid = some aid →
    entry.answer ≠ .dropped →
    (∀ (j : Nat) (other : Entry β) (earlier : Nat), j < i → log[j]? = some other →
      other.event.aid = some earlier → earlier ≤ aid) →
    Answered history aid entry.seq entry.answer

/-- What holds of the messages on a channel. -/
structure ChannelLaws (state : Recorded β) : Prop where
  /-- No request is processed twice. -/
  once : state.processed.Nodup
  /-- The messages pushed so far are numbered from one on; those above the largest
  acknowledgement are retained; and each answer holds its part of them. -/
  delivered : ∃ history : List Json, state.session.seq = history.length ∧
    Numbered.Delivers history (seen state.log) state.session.seq state.session.messages ∧
    AllAnswered history state.log

theorem seen_concat (log : List (Entry β)) (entry : Entry β) :
    seen (log ++ [entry]) = max (seen log) entry.seen := by
  rw [seen, List.foldl_append]
  rfl

/-- The largest acknowledgement is one of the polls', or none was seen. -/
theorem seen_le {log : List (Entry β)} {bound : Nat}
    (h : ∀ (j : Nat) (other : Entry β) (earlier : Nat), log[j]? = some other →
      other.event.aid = some earlier → earlier ≤ bound) : seen log ≤ bound := by
  induction log using List.reverseRecOn with
  | nil => exact Nat.zero_le _
  | append_singleton log entry ih =>
    rw [seen_concat]
    apply max_le
    · apply ih
      intro j other earlier hj
      obtain ⟨hlt, -⟩ := List.getElem?_eq_some_iff.mp hj
      apply h j
      rw [List.getElem?_append_left hlt]
      exact hj
    · have hlast : (log ++ [entry])[log.length]? = some entry := by simp
      unfold Entry.seen
      split
      · exact Nat.zero_le _
      · cases ha : entry.event.aid with
        | none => exact Nat.zero_le _
        | some aid => exact h _ entry aid hlast ha

theorem Answered.append {history : List Json} {aid seq : Nat} {answer : Answer}
    (h : Answered history aid seq answer) (more : List Json) :
    Answered (history ++ more) aid seq answer := by
  cases h with
  | messages filled delivers => exact .messages filled (delivers.append more)
  | waiting nothing => exact .waiting nothing

/-- The answers so far are those of a longer history, and a new one is answered by itself. -/
theorem AllAnswered.concat {history : List Json} {log : List (Entry β)}
    (h : AllAnswered history log) (values : List Json) {entry : Entry β}
    (hentry : ∀ aid, entry.event.aid = some aid → entry.answer ≠ .dropped → seen log ≤ aid →
      Answered (history ++ values) aid entry.seq entry.answer) :
    AllAnswered (history ++ values) (log ++ [entry]) := by
  intro i other aid hi ha hdropped hearlier
  by_cases hlt : i < log.length
  · rw [List.getElem?_append_left hlt] at hi
    apply Answered.append
    apply h i other aid hi ha hdropped
    intro j before earlier hj hbefore
    apply hearlier j before earlier hj
    rw [List.getElem?_append_left (Nat.lt_trans hj hlt)]
    exact hbefore
  · have hle : log.length ≤ i := Nat.le_of_not_lt hlt
    rw [List.getElem?_append_right hle, List.getElem?_singleton] at hi
    split at hi
    · rename_i hzero
      obtain rfl := Option.some.inj hi
      apply hentry aid ha hdropped
      apply seen_le
      intro j before earlier hj hbefore
      obtain ⟨hin, -⟩ := List.getElem?_eq_some_iff.mp hj
      apply hearlier j before earlier (by omega) _ hbefore
      rw [List.getElem?_append_left hin]
      exact hj
    · cases hi

/-- The laws, with the retained messages as what is left of a history. -/
structure Sound (state : Recorded β) : Prop where
  once : state.processed.Nodup
  received : ∀ id, id ∈ state.processed ↔ id ∈ state.session.received
  delivered : ∃ history : List Json,
    Numbered.Holds history (seen state.log) state.session.toNumbered ∧
      AllAnswered history state.log

theorem Sound.laws {state : Recorded β} (h : Sound state) : ChannelLaws state := by
  obtain ⟨history, hholds, hanswered⟩ := h.delivered
  exact ⟨h.once, history, hholds.seq, hholds.delivers, hanswered⟩

theorem Sound.start (database : String) : Sound (Recorded.start database : Recorded β) := by
  refine ⟨List.nodup_nil, fun id => Iff.rfl, [], Numbered.Holds.empty, ?_⟩
  intro i entry aid hi
  simp [Recorded.start] at hi

/-- A batch. -/
theorem Sound.posted {state : Recorded β} (h : Sound state) {session : Session}
    {processed : List UInt64} (hp : PostedOnce state.session ⟨.dropped, session, processed⟩)
    {event : ChannelEvent β} (he : event.aid = none) (answer : Answer) :
    Sound ⟨session, state.processed ++ processed,
      state.log ++ [⟨event, answer, session.seq⟩]⟩ := by
  obtain ⟨history, hholds, hanswered⟩ := h.delivered
  obtain ⟨values, hvalues⟩ := hp.pushed
  refine ⟨?_, ?_, history ++ values, ?_, ?_⟩
  · apply h.once.append hp.nodup
    intro id hold hnew
    exact hp.fresh id hnew ((h.received id).mp hold)
  · intro id
    rw [List.mem_append, h.received, hp.received, or_comm]
  · have hseen : (⟨event, answer, session.seq⟩ : Entry β).seen = 0 := by
      unfold Entry.seen
      dsimp only
      rw [he]
      split <;> rfl
    dsimp only at hvalues ⊢
    rw [seen_concat, hseen, Nat.max_zero, hvalues]
    exact hholds.pushes values
  · apply hanswered.concat
    intro aid ha
    dsimp only at ha
    rw [he] at ha
    cases ha

theorem post_once (handshake : Bool) (rpc : Rpc) (session : Session) (body : Bytes)
    (moments : List (Moment β)) :
    PostedOnce session ⟨.dropped, (post config handshake rpc session body moments).2.1,
      (post config handshake rpc session body moments).2.2⟩ := by
  have hnone : PostedOnce session ⟨.dropped, session, []⟩ :=
    ⟨⟨[], rfl⟩, List.nodup_nil, by simp, by simp⟩
  unfold post
  split
  · exact hnone
  · exact hnone
  · rename_i messages _
    obtain ⟨hpushed, hnodup, hfresh, hreceived⟩ :=
      postMessages_once config rpc messages session moments
    dsimp only
    split <;> exact ⟨hpushed, hnodup, hfresh, hreceived⟩

/-- Messages that are pushed while a poll is under way, which does not get to answer. -/
theorem Sound.pushed {state : Recorded β} (h : Sound state) {session : Session}
    (he : state.session.Extends session) (event : ChannelEvent β) :
    Sound ⟨session, state.processed, state.log ++ [⟨event, .dropped, session.seq⟩]⟩ := by
  obtain ⟨history, hholds, hanswered⟩ := h.delivered
  obtain ⟨⟨values, hvalues⟩, hreceived⟩ := he
  refine ⟨h.once, ?_, history ++ values, ?_, ?_⟩
  · intro id
    rw [h.received, hreceived]
  · dsimp only
    rw [seen_concat, Entry.seen, Nat.max_zero, hvalues]
    exact hholds.pushes values
  · apply hanswered.concat
    intro aid _ hdropped
    exact absurd rfl hdropped

/-- The session when messages were acknowledged. -/
def Session.trimmed (session : Session) (aid : Nat) : Session :=
  { session with toNumbered := session.toNumbered.trim aid }

theorem answerQueued_eq (session : Session) (aid : Nat) : answerQueued session aid =
    (if (session.trimmed aid).messages.isEmpty then .waiting
      else .messages (session.trimmed aid).messages, session.trimmed aid) := by
  unfold answerQueued Session.queued
  dsimp only
  split
  · rename_i hq
    obtain ⟨hbody, rfl⟩ := Prod.mk.inj hq
    split at hbody
    · cases hbody
    · rename_i hfilled
      obtain rfl := Option.some.inj hbody
      exact Prod.ext (if_neg hfilled).symm rfl
  · rename_i hq
    obtain ⟨hbody, rfl⟩ := Prod.mk.inj hq
    split at hbody
    · rename_i hempty
      exact Prod.ext (if_pos hempty).symm rfl
    · cases hbody

/-- Messages are pushed, and what is behind the acknowledgement of a poll is its answer. -/
theorem Sound.acknowledged {state : Recorded β} (h : Sound state) {session : Session}
    (he : state.session.Extends session) {event : ChannelEvent β} {aid : Nat}
    (ha : event.aid = some aid) (hle : aid ≤ session.seq) {answer : Answer}
    (hanswer : ∀ history : List Json,
      Numbered.Delivers history aid session.seq (session.trimmed aid).messages →
        Answered history aid session.seq answer)
    (hdropped : answer ≠ .dropped) :
    Sound ⟨session.trimmed aid, state.processed,
      state.log ++ [⟨event, answer, session.seq⟩]⟩ := by
  obtain ⟨history, hholds, hanswered⟩ := h.delivered
  obtain ⟨⟨values, hvalues⟩, hreceived⟩ := he
  have hpushed : Numbered.Holds (history ++ values) (seen state.log) session.toNumbered := by
    rw [hvalues]
    exact hholds.pushes values
  have htrimmed : Numbered.Holds (history ++ values) (max (seen state.log) aid)
      (session.trimmed aid).toNumbered := by
    apply hpushed.trim
    rw [← hpushed.seq]
    exact hle
  have hseen : (⟨event, answer, session.seq⟩ : Entry β).seen = aid := by
    unfold Entry.seen
    dsimp only
    rw [ha]
    split
    · exact absurd rfl hdropped
    · rfl
  refine ⟨h.once, ?_, history ++ values, ?_, ?_⟩
  · intro id
    rw [h.received, ← hreceived]
    rfl
  · rw [seen_concat, hseen]
    exact htrimmed
  · apply hanswered.concat
    intro other hother _ hlargest
    obtain rfl : aid = other := Option.some.inj (ha.symm.trans hother)
    apply hanswer
    rw [max_eq_right hlargest] at htrimmed
    exact htrimmed.delivers

/-- There is nothing behind an acknowledgement only when it is that of the last message. -/
theorem eq_of_delivers_nil {history : List Json} {aid seq : Nat}
    (h : Numbered.Delivers history aid seq []) (hle : aid ≤ seq) : seq = aid := by
  have hlen := congrArg List.length h.numbers
  rw [List.length_range', List.map_nil, List.length_nil] at hlen
  omega

theorem Sound.polled {state : Recorded β} (h : Sound state) {session : Session}
    (he : state.session.Extends session) {event : ChannelEvent β} {aid : Nat}
    (ha : event.aid = some aid) (hle : aid ≤ session.seq) :
    Sound ⟨(answerQueued session aid).2, state.processed, state.log ++
      [⟨event, (answerQueued session aid).1, (answerQueued session aid).2.seq⟩]⟩ := by
  rw [answerQueued_eq]
  apply h.acknowledged he ha hle
  · intro history hdelivers
    dsimp only
    split
    · rename_i hempty
      rw [List.isEmpty_iff.mp hempty] at hdelivers
      exact .waiting (eq_of_delivers_nil hdelivers hle)
    · rename_i hfilled
      exact .messages (fun hnil => hfilled (List.isEmpty_iff.mpr hnil)) hdelivers
  · dsimp only
    split <;> simp

/-- The noop is behind every acknowledgement. -/
theorem Sound.timedOut {state : Recorded β} (h : Sound state) {event : ChannelEvent β} {aid : Nat}
    (ha : event.aid = some aid) (hle : aid ≤ state.session.seq) :
    Sound ⟨(timeout state.session aid).2, state.processed, state.log ++
      [⟨event, (timeout state.session aid).1, (timeout state.session aid).2.seq⟩]⟩ := by
  have he := (Session.Extends.refl state.session).push (.string "noop")
  have hnoop : (state.session.seq + 1, Json.string "noop") ∈
      ((state.session.push (.string "noop")).trimmed aid).messages := by
    apply List.mem_filter.mpr
    refine ⟨Numbered.mem_push_self _ _, ?_⟩
    simpa using Nat.lt_succ_of_le hle
  have hfilled : ((state.session.push (.string "noop")).trimmed aid).messages ≠ [] := by
    intro hnil
    rw [hnil] at hnoop
    cases hnoop
  have htimeout : timeout state.session aid =
      (.messages ((state.session.push (.string "noop")).trimmed aid).messages,
        (state.session.push (.string "noop")).trimmed aid) := by
    have hempty : ((state.session.push (.string "noop")).trimmed aid).messages.isEmpty = false := by
      simpa using hfilled
    have hqueued : (state.session.push (.string "noop")).queued aid =
        (some ((state.session.push (.string "noop")).trimmed aid).messages,
          (state.session.push (.string "noop")).trimmed aid) := by
      unfold Session.queued
      exact Prod.ext (if_neg (by rw [Bool.not_eq_true]; exact hempty)) rfl
    rw [timeout, hqueued]
  rw [htimeout]
  apply h.acknowledged he ha (Nat.le_succ_of_le hle)
  · intro history hdelivers
    exact .messages hfilled hdelivers
  · simp

theorem Session.Extends.seq_le {a b : Session} (h : a.Extends b) : a.seq ≤ b.seq := by
  obtain ⟨⟨values, hvalues⟩, -⟩ := h
  have hgrows : ∀ (values : List Json) (q : Numbered Json),
      q.seq ≤ (values.foldl Numbered.push q).seq := by
    intro values
    induction values with
    | nil => exact fun q => Nat.le_refl _
    | cons value values ih => exact fun q => Nat.le_trans (Nat.le_succ _) (ih (q.push value))
  rw [hvalues]
  exact hgrows values _

/-- One event: a poll that refreshes readable targets gets to answer. -/
theorem Sound.step {state : Recorded β} (h : Sound state) {event : ChannelEvent β}
    (hp : state.Polite event) (hr : state.Readable config event) :
    Sound (state.step config event) := by
  cases event with
  | post handshake rpc body moments =>
    exact h.posted (post_once config handshake rpc state.session body moments) rfl _
  | timeout aid => exact h.timedOut rfl (hp _ rfl)
  | poll rpc aid moments =>
    have hle := hp _ rfl
    unfold Recorded.step poll
    cases rpc with
    | write => exact h.polled (.refl state.session) rfl hle
    | listen =>
      have he := refresh_extends config state.session none moments
      have houtcome := refresh_all_outcome config state.session moments
      dsimp only
      split
      · exact h.polled he rfl (Nat.le_trans hle he.seq_le)
      · rename_i status hfailed
        rw [hfailed] at houtcome
        exact absurd houtcome.symm (hr status)
      · exact h.pushed he _
      · rename_i hpanicked
        rw [hpanicked] at houtcome
        exact absurd houtcome.symm (readAll_ne_panicked config _ _)

/-- In every run in which the polls can read the documents of the targets, whatever the batches
and the polls are, no request is processed twice and no message is skipped. -/
theorem channel_delivers (config : ChannelConfig β) {database : String} {state : Recorded β}
    (h : Recorded.Reached config (fun state event => state.Polite event ∧
      state.Readable config event) database state) : ChannelLaws state := by
  apply Sound.laws
  refine Reach.invariant ?_ (fun state event hs ha => hs.step config ha.1 ha.2) h
  intro state hstart
  rw [hstart]
  exact .start database

/-- The text of a query in no known order. -/
def poorText : String :=
  "\x7b\"addTarget\":\x7b\"query\":\x7b\"structuredQuery\":\x7b\"orderBy\":[\x7b\x7d]\x7d\x7d," ++
    "\"targetId\":2\x7d\x7d"

def poorTarget : Json :=
  .object [("query", .object [("structuredQuery", .object [("orderBy", .array [.object []])])]),
    ("targetId", .number (.posInt 2))]

def poorForm : String := "req0___data__=" ++ poorText

def sampleChannel : ChannelConfig Document where
  codec := plainCodec
  formats := ⟨fun _ => "", fun _ => ""⟩
  readers := ⟨fun _ => none, fun _ => none⟩
  fromStr text :=
    if text = poorText then some (.object [("addTarget", poorTarget)])
    else if text = "\x7b\x7d" then some (.object [])
    else none
  checks := true
  sid := "sid"

theorem poorForm_fields : formFields (split '&' poorForm) ∅ =
    .ok ((∅ : ExtTreeMap String String).insert "req0___data__" poorText) := by
  have hpairs : split '&' poorForm = [poorForm] := split_of_not_mem '&' (by decide)
  have hpair : splitOnce '=' poorForm = some ("req0___data__", poorText) := by
    have hequals : "req0___data__=" = "req0___data__" ++ String.singleton '=' := by decide
    rw [poorForm, hequals]
    exact splitOnce_append (by decide) poorText
  have hkey : decodeFormComponent "req0___data__" = .ok "req0___data__" :=
    decodeFormComponent_plain (by decide)
  have hvalue : decodeFormComponent poorText = .ok poorText :=
    decodeFormComponent_plain (by decide)
  simp only [hpairs, formFields, hpair, hkey, hvalue]
  rfl

theorem poorForm_messages : formMessages sampleChannel.fromStr true (textBytes poorForm) =
    some (.ok [(0, .object [("addTarget", poorTarget)])]) := by
  have htext : ofUtf8 (textBytes poorForm) = some poorForm := ofUtf8_eq_some.mpr rfl
  have hlist : ((∅ : ExtTreeMap String String).insert "req0___data__" poorText).toList =
      [("req0___data__", poorText)] := by decide
  have hoffset : formOffset ((∅ : ExtTreeMap String String).insert "req0___data__" poorText) =
      0 := by decide
  have hindex : requestIndex "req0___data__" = some "0" := by decide
  have hzero : parseU64 "0" = some 0 := by decide
  have hread : sampleChannel.fromStr poorText = some (.object [("addTarget", poorTarget)]) := by
    simp [sampleChannel]
  have hsum : addU64 true 0 0 = some 0 := by decide
  rw [formMessages, htext]
  dsimp only
  rw [poorForm_fields]
  dsimp only
  rw [hlist, hoffset]
  simp only [collectMessages, hindex, hzero, hsum, hread, Option.bind_some, Option.map_some,
    Except.map, List.mergeSort_singleton]

def poorMessages : List (UInt64 × Json) := [(0, .object [("addTarget", poorTarget)])]

/-- The session of a first batch that asks for the query. -/
def poorSession : Session :=
  (postMessages sampleChannel .listen poorMessages (.start "") []).session

theorem post_poorForm : post sampleChannel true .listen (.start "") (textBytes poorForm) [] =
    (.opened "sid", poorSession, [0]) := by
  have hchecks : sampleChannel.checks = true := rfl
  rw [post, hchecks, poorForm_messages]
  rfl

theorem aidOf_zero : aidOf (some "0") = 0 := by decide

/-- The query is refused again by the poll that is to deliver the refusal. -/
theorem poll_poorSession : (poll sampleChannel .listen poorSession 0 []).1 =
    .refused (invalidArgument "invalid order direction") := by
  rfl

def plainForm : Bytes := textBytes "req0___data__=\x7b\x7d"

/-- A batch and a poll, each with a retry, on a channel of writes. -/
def retriedEvents : List (ChannelEvent Document) :=
  [.post true .write plainForm [], .post false .write plainForm [], .poll .write (some "0") [],
    .poll .write (some "0") [], .timeout (some "1")]

theorem channel_delivers_retried :
    ChannelLaws ((retriedEvents.foldl (Recorded.step sampleChannel) (.start "")).step sampleChannel
      (.poll .listen none [])) := by
  have hstart : Recorded.Reached sampleChannel (fun state event => state.Polite event ∧
      state.Readable sampleChannel event) "" (.start "") := .start rfl
  have halong : Reach.Along (Recorded.step sampleChannel) (fun state event =>
      state.Polite event ∧ state.Readable sampleChannel event) (.start "") retriedEvents := by
    refine ⟨⟨?_, trivial⟩, ⟨?_, trivial⟩, ⟨?_, trivial⟩, ⟨?_, trivial⟩, ⟨?_, trivial⟩, trivial⟩
    · intro aid ha
      cases ha
    · intro aid ha
      cases ha
    · intro aid ha
      obtain rfl := Option.some.inj ha
      rw [aidOf_zero]
      exact Nat.zero_le _
    · intro aid ha
      obtain rfl := Option.some.inj ha
      rw [aidOf_zero]
      exact Nat.zero_le _
    · intro aid ha
      obtain rfl := Option.some.inj ha
      decide +kernel
  have hempty : (retriedEvents.foldl (Recorded.step sampleChannel)
      (.start "")).session.targets.toList.length = 0 := by decide +kernel
  refine channel_delivers sampleChannel ((hstart.run halong).step _ ⟨?_, ?_⟩)
  · intro aid ha
    obtain rfl := Option.some.inj ha
    exact Nat.zero_le _
  · intro status hfailed
    rw [List.length_eq_zero_iff.mp hempty] at hfailed
    cases hfailed

def refusedEvents : List (ChannelEvent Document) :=
  [.post true .listen (textBytes poorForm) [], .poll .listen (some "0") []]

theorem refusedEvents_log :
    (refusedEvents.foldl (Recorded.step sampleChannel) (.start "")).log =
      [⟨.post true .listen (textBytes poorForm) [], .opened "sid", poorSession.seq⟩,
        ⟨.poll .listen (some "0") [], .refused (invalidArgument "invalid order direction"),
          (poll sampleChannel .listen poorSession 0 []).2.seq⟩] := by
  have hpost : (Recorded.start "").step sampleChannel
      (.post true .listen (textBytes poorForm) []) = ⟨poorSession, [0],
        [⟨.post true .listen (textBytes poorForm) [], .opened "sid", poorSession.seq⟩]⟩ := by
    unfold Recorded.step
    dsimp only [Recorded.start]
    rw [post_poorForm]
    rfl
  rw [refusedEvents, List.foldl_cons, List.foldl_cons, List.foldl_nil, hpost]
  unfold Recorded.step
  dsimp only
  rw [aidOf_zero, poll_poorSession]
  rfl

theorem channel_delivers_refused :
    ¬ ∀ (config : ChannelConfig Document) (database : String) (state : Recorded Document),
      Recorded.Reached config Recorded.Polite database state → ChannelLaws state := by
  intro h
  have halong : Reach.Along (Recorded.step sampleChannel) Recorded.Polite (.start "")
      refusedEvents := by
    refine ⟨?_, ?_, trivial⟩
    · intro aid ha
      cases ha
    · intro aid ha
      obtain rfl := Option.some.inj ha
      rw [aidOf_zero]
      exact Nat.zero_le _
  have hstart : Recorded.Reached sampleChannel Recorded.Polite "" (.start "") := .start rfl
  obtain ⟨-, history, -, -, hanswered⟩ := h sampleChannel "" _ (hstart.run halong)
  rw [refusedEvents_log] at hanswered
  have hpoll := hanswered 1 _ 0 rfl (congrArg some aidOf_zero) (by simp) (by
    intro j other earlier hj hother hearlier
    obtain rfl : j = 0 := by omega
    obtain rfl := Option.some.inj hother
    cases hearlier)
  cases hpoll

end FirebaseEmu.Firestore.Channel
