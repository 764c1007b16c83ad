import FirebaseEmu.Firestore.Durable
import FirebaseEmu.Firestore.Memory
import FirebaseEmu.Firestore.Requests
import FirebaseEmu.Firestore.Sample

namespace FirebaseEmu.Firestore
open Lib Std

variable {β : Type} (codec : DocumentCodec β)

/-- The document stored under the name, on either backend. -/
def documentNow (service : FirestoreService β) (name : String) : Option Document :=
  (document codec service name).toOption.join

/-- The events a request emitted: the direct ones it enqueued, or those whose records it
added to the outbox. -/
def Emitted (service service' : FirestoreService β) (events : List DocumentEvent) : Prop :=
  match service.persistence with
  | none => service'.enqueued = service.enqueued ++ events
  | some p => ∃ p', service'.persistence = some p' ∧
      p'.outbox = p.outbox ++ outboxRows p.nextOutboxId (events.map (outboxRecord codec))

theorem documentNow_memory {service : FirestoreService β} (hm : service.persistence = none)
    (name : String) : documentNow codec service name = service.store.documents[name]? := by
  simp [documentNow, document, hm, Except.toOption]

theorem documentNow_sqlite {service : FirestoreService β} {p : Persistence β}
    (hp : service.persistence = some p) (name : String) :
    documentNow codec service name = storedDocument codec p.documents name := by
  simp only [documentNow, document, hp, storedDocument]
  cases p.documents[name]? with
  | none => rfl
  | some row =>
    cases hd : codec.decode row.document <;>
      simp [decodeDocument, hd, Except.map, Except.mapError, Except.toOption]

section Equality

end Equality

variable {codec}

theorem outboxRecord_injective : Function.Injective (outboxRecord codec) := by
  have hencode : Function.Injective codec.encode := by
    intro a b h
    have hd := codec.decode_encode a
    rw [h, codec.decode_encode b] at hd
    exact (Except.ok.inj hd).symm
  rintro ⟨before, after⟩ ⟨before', after'⟩ h
  simp only [outboxRecord, OutboxRecord.mk.injEq, FirestoreOutboxPayload.mk.injEq, true_and] at h
  rw [Option.map_injective hencode h.1, Option.map_injective hencode h.2]

theorem outboxRows_injective (nextId : Nat) :
    Function.Injective (outboxRows (β := β) nextId) := by
  intro records records' h
  induction records generalizing nextId records' with
  | nil => cases records' <;> simp_all [outboxRows]
  | cons record records ih =>
    cases records' with
    | nil => simp [outboxRows] at h
    | cons record' records' =>
      obtain ⟨source, payload⟩ := record
      obtain ⟨source', payload'⟩ := record'
      simp only [outboxRows, List.cons.injEq, OutboxRow.mk.injEq] at h
      obtain ⟨⟨-, rfl, rfl, -⟩, ht⟩ := h
      rw [ih _ ht]

/-- A request emits one list of events. -/
theorem Emitted.unique {service service' : FirestoreService β} {events events' : List DocumentEvent}
    (h : Emitted codec service service' events) (h' : Emitted codec service service' events') :
    events = events' := by
  unfold Emitted at h h'
  cases hp : service.persistence with
  | none =>
    simp only [hp] at h h'
    exact List.append_cancel_left (h.symm.trans h')
  | some p =>
    simp only [hp] at h h'
    obtain ⟨q, hq, ho⟩ := h
    obtain ⟨q', hq', ho'⟩ := h'
    obtain rfl := Option.some.inj (hq.symm.trans hq')
    have hrows := outboxRows_injective _ (List.append_cancel_left (ho.symm.trans ho'))
    exact outboxRecord_injective.list_map hrows

/-- What the event loops of an accepted request see: the documents before it, all of them
in memory and the named ones in a SQLite transaction, and what its writes make of them. -/
structure Observed (codec : DocumentCodec β) (service service' : FirestoreService β)
    (writes : List Write) (now : Timestamp) (before : Documents) : Prop where
  before_eq : ∀ name, before[name]? =
    if service.persistence = none ∨ Touched writes name then documentNow codec service name
    else none
  after_eq : ∀ name, Touched writes name →
    documentNow codec service' name = ((writeOps now).after before writes)[name]?
  emitted : Emitted codec service service'
    (documentEvents before ((writeOps now).after before writes))

namespace Observed
variable {service service' : FirestoreService β} {writes : List Write} {now : Timestamp}
  {before : Documents}

end Observed

section Backends
variable {memory memory' sqlite sqlite' : FirestoreService β} {writes : List Write}
  {now : Timestamp} {before before' : Documents}

end Backends

/-- A commit of one document to an empty database. -/
def sampleCommit (name : String) (fields : Fields) : Call :=
  ⟨.commit ⟨sampleDatabase, [sampleSet (sampleName sampleDatabase name) fields], []⟩,
    sampleTime 1, []⟩

/-- The fields of a document that holds a NaN. -/
def sampleNan : Fields := [("n", .doubleValue .nan)]

end FirebaseEmu.Firestore
