import FirebaseEmu.Firestore.WebChannel
import FirebaseEmu.Firestore.Triggers

namespace FirebaseEmu.Firestore
open Lib Std

variable {β : Type}

/-- A settled listen stream has shown its client the documents of each target. An idle
channel session has shown the documents it read since its last poll began, and those are
the documents there are unless a mutation landed after they were read. -/
theorem listeners_converge (codec : DocumentCodec β) (formats : TextFormats)
    {service : FirestoreService β} (hservice : Tabled codec service) :
    (∀ (owed : Nat) (events : List StreamEvent) (id : Int) (target : Target) (previous : Documents),
      let s := (Stream.start service owed).run codec events
      s.Settled → s.watch.targets[id]? = some (target, previous) →
      ∃ docs, targetDocs codec s.service target = .ok docs ∧
        ∀ name : String, Shown (emitTarget.views s.watch.sent id)[name]? (byName docs)[name]?) ∧
    (∀ (events : List Web.SessionEvent) (id : Int) (spec : Web.Spec) (known : Web.Known),
      let s := (Web.Session.start service).run codec formats events
      s.idle = true → s.failed = false → s.watch.targets[id]? = some (spec, known) →
      (∀ name : String, Web.Shown formats ((Web.refresh formats).views s.watch.sent id)[name]?
        known.1[name]?) ∧
      ∃ evaluated, known.2 = some evaluated ∧ s.polled ≤ evaluated ∧
        (evaluated = s.service.changes → ∃ docs,
          Web.targetDocs codec s.service spec = .ok docs ∧ byName docs = known.1)) := by
  constructor
  · intro owed events id target previous s hs ht
    exact ((Stream.Converging.start service owed).run events).shown hs ht
  · intro events id spec known s hidle hfailed ht
    obtain ⟨⟨evaluated, he, hpolled, -, hnow⟩, hshown⟩ :=
      ((Web.Session.Converging.start hservice).run events).shown hidle hfailed ht
    exact ⟨hshown, evaluated, he, hpolled, hnow⟩

def sampleTarget : Target := ⟨1, some (.documents [sampleName sampleDatabase "a"])⟩

def sampleSpec : Web.Spec := .documents [sampleName sampleDatabase "a"]

def sampleDocument : Document :=
  ⟨sampleName sampleDatabase "a", [], some (sampleTime 1), some (sampleTime 1)⟩

/-- Times are written as their seconds, byte strings as nothing. -/
def sampleFormats : TextFormats := ⟨fun t => toString t.seconds.toInt, fun _ => ""⟩

/-- A target is added, a document is committed, and the stream hears of it. -/
def sampleStream : List StreamEvent :=
  .addTarget sampleTarget :: List.replicate 5 .advance ++
    [.call (sampleCommit "a" []), .notify, .receive] ++ List.replicate 4 .advance

/-- A target is added, a document is committed, and the client polls. -/
def sampleSession : List Web.SessionEvent :=
  .addTarget 1 sampleSpec :: List.replicate 5 .advance ++
    [.call (sampleCommit "a" []), .poll] ++ List.replicate 4 .advance

theorem listeners_converge_sample :
    (∃ document, (emitTarget.views ((Stream.start sampleMemory 0).run plainCodec
        sampleStream).watch.sent 1)[sampleName sampleDatabase "a"]? = some document) ∧
    ∃ json, ((Web.refresh sampleFormats).views ((Web.Session.start sampleMemory).run plainCodec
        sampleFormats sampleSession).watch.sent 1)[sampleName sampleDatabase "a"]? = some json := by
  have h := listeners_converge plainCodec sampleFormats (tabled_memory plainCodec
    (show sampleMemory.persistence = none from rfl))
  constructor
  · obtain ⟨docs, hdocs, hshown⟩ := h.1 0 sampleStream 1 sampleTarget _ ⟨rfl, rfl, rfl⟩ rfl
    obtain rfl := Except.ok.inj hdocs
    rcases hshown (sampleName sampleDatabase "a") with hv | ⟨old, document, hv, -⟩
    · exact ⟨_, hv⟩
    · exact ⟨old, hv⟩
  · obtain ⟨hshown, -⟩ := h.2 sampleSession 1 sampleSpec _ rfl rfl rfl
    exact @Web.Shown.of_stored sampleFormats _ sampleDocument
      (hshown (sampleName sampleDatabase "a"))

/-- A commit whose notification is not yet sent, or one that lands while a poll refreshes,
is not shown. -/
theorem late_commit_not_shown :
    (¬ ∀ (events : List StreamEvent) (id : Int) (target : Target) (previous : Documents)
        (docs : List Document),
      let s := (Stream.start sampleMemory 0).run plainCodec events
      s.received = s.notified → s.watch.todo = [] →
      s.watch.targets[id]? = some (target, previous) →
      targetDocs plainCodec s.service target = .ok docs →
      ∀ name : String, Shown (emitTarget.views s.watch.sent id)[name]? (byName docs)[name]?) ∧
    (¬ ∀ (events : List Web.SessionEvent) (id : Int) (spec : Web.Spec) (known : Web.Known)
        (docs : List Document),
      let s := (Web.Session.start sampleMemory).run plainCodec sampleFormats events
      .poll ∈ events → s.idle = true → s.failed = false →
      s.watch.targets[id]? = some (spec, known) →
      Web.targetDocs plainCodec s.service spec = .ok docs →
      ∀ name : String, Web.Shown sampleFormats
        ((Web.refresh sampleFormats).views s.watch.sent id)[name]? (byName docs)[name]?) := by
  have hstored : (byName [sampleDocument])[sampleName sampleDatabase "a"]? = some sampleDocument :=
    rfl
  constructor
  · intro h
    have hshown := h (.addTarget sampleTarget :: List.replicate 5 .advance ++
      [.call (sampleCommit "a" [])]) 1 sampleTarget ∅ [sampleDocument] rfl rfl rfl rfl
      (sampleName sampleDatabase "a")
    rw [hstored] at hshown
    rcases hshown with hv | ⟨old, _, hv, -⟩ <;> cases hv
  · intro h
    have hshown := h (.addTarget 1 sampleSpec :: List.replicate 5 .advance ++
      [.poll, .advance, .call (sampleCommit "a" []), .advance, .advance]) 1 sampleSpec (∅, some 0)
      [sampleDocument] (by simp) rfl rfl rfl rfl (sampleName sampleDatabase "a")
    rw [hstored] at hshown
    obtain ⟨json, hv⟩ := hshown.of_stored
    cases hv

/-- The messages of a stream that tell of documents. -/
def ListenResponse.aboutDocument : ListenResponse → Bool
  | .documentChange _ _ _ | .documentRemove _ _ => true
  | .targetChange _ _ => false

/-- An evaluation by `emit_target` that tells of no document. -/
def QuietEmit (id : Int) (previous : Documents) (docs : List Document) (initial : Bool) : Prop :=
  ∀ message ∈ emitTarget.before id previous docs initial ++
    emitTarget.after id previous docs initial, message.aboutDocument = false

/-- An evaluation by `refresh` that tells of no document. -/
def Web.QuietRefresh (formats : TextFormats) (id : Int) (previous : Web.Known)
    (answer : List Document × Nat) (initial : Bool) : Prop :=
  ∀ message ∈ (Web.refresh formats).before id previous answer initial ++
    (Web.refresh formats).after id previous answer initial, message.aboutDocument = false

theorem documentRemoves_self (id : Int) (documents : Documents) :
    documentRemoves id documents documents = [] := by
  rw [documentRemoves, List.map_eq_nil_iff, List.filter_eq_nil_iff]
  intro name hm
  rw [ExtTreeMap.mem_keys] at hm
  simp [hm]

/-- Documents that stayed are sent again when they differ from themselves. -/
theorem documentChanges_self_iff (id : Int) (documents : Documents) :
    documentChanges id documents documents = [] ↔
      ∀ (name : String) (document : Document), documents[name]? = some document →
        document.hasNan = false := by
  rw [documentChanges, List.map_eq_nil_iff, List.filter_eq_nil_iff]
  constructor
  · intro h name document hd
    have hu := h (name, document) (ExtTreeMap.mem_toList_iff_getElem?_eq_some.mpr hd)
    simpa [hd, unchanged, Document.eq_self_iff] using hu
  · rintro h ⟨name, document⟩ hm
    rw [ExtTreeMap.mem_toList_iff_getElem?_eq_some] at hm
    simpa [hm, unchanged, Document.eq_self_iff] using h name document hm

theorem quietEmit_iff (id : Int) (documents : Documents) {docs : List Document}
    (h : byName docs = documents) (initial : Bool) :
    QuietEmit id documents docs initial ↔
      ∀ (name : String) (document : Document), documents[name]? = some document →
        document.hasNan = false := by
  rw [← documentChanges_self_iff id]
  unfold QuietEmit
  simp only [emitTarget, h, documentRemoves_self, List.nil_append]
  constructor
  · intro hq
    rw [List.eq_nil_iff_forall_not_mem]
    intro message hm
    have hm' := hq message (List.mem_append_left _ hm)
    obtain ⟨entry, -, rfl⟩ := List.mem_map.mp hm
    cases hm'
  · intro hc message hm
    rw [hc, List.nil_append] at hm
    rcases List.mem_append.mp hm with hm | hm
    · split at hm
      · obtain rfl := List.mem_singleton.mp hm
        rfl
      · cases hm
    · obtain rfl := List.mem_singleton.mp hm
      rfl

theorem Web.quietRefresh (formats : TextFormats) (id : Int) {known : Web.Known}
    {answer : List Document × Nat} (hc : Consistent answer.1) (h : byName answer.1 = known.1)
    (initial : Bool) : Web.QuietRefresh formats id known answer initial := by
  have hchanges : Web.documentChanges formats id known.1 answer.1 = [] := by
    rw [Web.documentChanges, List.map_eq_nil_iff, List.filter_eq_nil_iff]
    intro document hm
    rw [← h, (Web.byName_getElem? hc document.name).1 document hm rfl]
    simp [Web.changed]
  have hremoves : Web.documentRemoves id known.1 (byName answer.1) = [] := by
    rw [h, Web.documentRemoves, List.map_eq_nil_iff, List.filter_eq_nil_iff]
    intro name hm
    rw [ExtTreeMap.mem_keys] at hm
    simp [hm]
  intro message hm
  simp only [Web.refresh, hchanges, hremoves, List.nil_append] at hm
  split at hm
  · obtain rfl := List.mem_singleton.mp hm
    rfl
  · cases hm

/-- Where the result of a target is the same documents at two evaluations, the stream is
quiet at the second exactly when none of them holds a NaN, and the channel always is. -/
theorem second_evaluation_quiet_iff (codec : DocumentCodec β) (formats : TextFormats) :
    (∀ (service service' : FirestoreService β) (id : Int) (target : Target)
        (docs docs' : List Document) (initial : Bool),
      targetDocs codec service target = .ok docs → targetDocs codec service' target = .ok docs' →
      byName docs' = byName docs →
      (QuietEmit id (emitTarget.result docs) docs' initial ↔
        ∀ (name : String) (document : Document), (byName docs)[name]? = some document →
          document.hasNan = false)) ∧
    (∀ (service service' : FirestoreService β) (id : Int) (spec : Web.Spec)
        (docs docs' : List Document) (initial : Bool), Tabled codec service' →
      Web.targetDocs codec service spec = .ok docs →
      Web.targetDocs codec service' spec = .ok docs' → byName docs' = byName docs →
      Web.QuietRefresh formats id ((Web.refresh formats).result (docs, service.changes))
        (docs', service'.changes) initial) := by
  constructor
  · intro service service' id target docs docs' initial _ _ hsame
    exact quietEmit_iff id _ hsame initial
  · intro service service' id spec docs docs' initial htabled _ hdocs hsame
    exact Web.quietRefresh formats id (Web.targetDocs_consistent htabled hdocs) hsame initial

/-- A target on a document with a NaN. -/
def sampleNanDocument : Document :=
  ⟨sampleName sampleDatabase "n", sampleNan, some (sampleTime 1), some (sampleTime 1)⟩

def sampleNanService : FirestoreService Document :=
  (handle plainCodec sampleMemory (sampleCommit "n" sampleNan)).2

theorem second_evaluation_quiet_sample :
    QuietEmit 1 (byName []) [] false ∧
      Web.QuietRefresh sampleFormats 1 (byName [sampleNanDocument], some sampleNanService.changes)
        ([sampleNanDocument], sampleNanService.changes) false :=
  ⟨((second_evaluation_quiet_iff plainCodec sampleFormats).1 sampleMemory sampleMemory 1
      sampleTarget [] [] false rfl rfl rfl).mpr (by simp [byName]),
    (second_evaluation_quiet_iff plainCodec sampleFormats).2 sampleNanService sampleNanService 1
      (.documents [sampleName sampleDatabase "n"]) [sampleNanDocument] [sampleNanDocument] false
      (tabled_memory plainCodec rfl) rfl rfl rfl⟩

/-- The stream sends a document with a NaN again at every evaluation. -/
theorem stream_repeats_nan :
    ¬ ∀ (service service' : FirestoreService Document) (id : Int) (target : Target)
        (docs docs' : List Document) (initial : Bool),
      targetDocs plainCodec service target = .ok docs →
      targetDocs plainCodec service' target = .ok docs' → byName docs' = byName docs →
      QuietEmit id (emitTarget.result docs) docs' initial := by
  intro h
  have hquiet := h sampleNanService sampleNanService 1
    ⟨1, some (.documents [sampleName sampleDatabase "n"])⟩ [sampleNanDocument] [sampleNanDocument]
    false rfl rfl rfl
  have hnan := (quietEmit_iff 1 _ rfl false).mp hquiet (sampleName sampleDatabase "n")
    sampleNanDocument rfl
  exact absurd hnan (by decide)

end FirebaseEmu.Firestore
