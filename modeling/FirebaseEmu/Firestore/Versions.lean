import FirebaseEmu.Firestore.Triggers
import Mathlib.Data.Prod.Lex
import Mathlib.Order.Lattice

namespace FirebaseEmu.Firestore
open Lib
open Std (ExtTreeMap)

/-- Seconds first, then nanoseconds. -/
def Timestamp.key (t : Timestamp) : Lex (Int × Int) := toLex (t.seconds.toInt, t.nanos.toInt)

theorem Timestamp.key_injective : Function.Injective Timestamp.key := by
  rintro ⟨seconds, nanos⟩ ⟨seconds', nanos'⟩ h
  obtain ⟨hs, hn⟩ := Prod.mk.inj (toLex.injective h)
  exact congrArg₂ Timestamp.mk (Int64.toInt_inj.mp hs) (Int32.toInt_inj.mp hn)

instance : LinearOrder Timestamp := LinearOrder.lift' Timestamp.key Timestamp.key_injective

variable {β : Type} (codec : DocumentCodec β)

/-- The writes a request applies to the documents they name. -/
def Request.writes : Request → List Write
  | .updateDocument request => request.document.toList.map (updateWrite request)
  | .deleteDocument request => [deleteWrite request]
  | .commit request => request.writes
  | .batchWrite request => request.writes
  | _ => []

def FirestoreService.takenId (service : FirestoreService β) (requested : String) : String :=
  match service.persistence with
  | some p => (p.takeDocumentId requested).1
  | none => (service.store.takeDocumentId requested).1

/-- The document the call would store a version of: the one it creates, or one that its
writes in turn leave with the reading of the call. -/
def Call.Stores (service : FirestoreService β) (call : Call) (name : String) : Prop :=
  match call.request with
  | .createDocument request => name = createdName request (service.takenId request.documentId)
  | request => ∃ document, (writeOps call.now).entryAfter name (documentNow codec service name)
      request.writes = some document ∧ document.updateTime = some call.now

/-- The service with the last reading of the clock, and the calls that have read it and
not taken effect. -/
structure Race (β : Type) where
  service : FirestoreService β
  clock : Timestamp
  waiting : List Call

/-- An effect: the service before it and the call. -/
abbrev Effect (β : Type) := FirestoreService β × Call

/-- The later effect does not come from an earlier reading, if the two store versions of
one document. -/
def NoOvertaking (later earlier : Effect β) : Prop :=
  later.2.now < earlier.2.now → ∀ name, later.2.Stores codec later.1 name →
    ¬ earlier.2.Stores codec earlier.1 name

/-- A version made at the reading, of a new document or of the one there was. -/
structure NewVersion (entry : Option Document) (now : Timestamp) (document : Document) : Prop where
  updateTime : document.updateTime = some now
  createTime : document.createTime = some now ∨
    ∃ old, entry = some old ∧ document.createTime = old.createTime

/-- Writes in turn leave a document alone, remove it, or leave a new version. -/
theorem entryAfter_version (now : Timestamp) (name : String) (entry : Option Document)
    (writes : List Write) :
    (writeOps now).entryAfter name entry writes = entry ∨
    (writeOps now).entryAfter name entry writes = none ∨
    ∃ document, (writeOps now).entryAfter name entry writes = some document ∧
      NewVersion entry now document := by
  induction writes generalizing entry with
  | nil => exact .inl rfl
  | cons write writes ih =>
    unfold KeyedOps.entryAfter
    split
    · rename_i result changed hk he
      split
      · obtain ⟨_, -, -, hchanged⟩ := writeDocument_ok he
        have hnew : ∀ document, changed = some document → NewVersion entry now document := by
          intro document hd
          obtain ⟨-, hu, hc⟩ := hchanged document hd
          refine ⟨hu, ?_⟩
          cases entry with
          | none => exact .inl hc
          | some old =>
            cases hold : old.createTime with
            | none => exact .inl (by simpa [hold] using hc)
            | some created => exact .inr ⟨old, rfl, by simpa [hold] using hc⟩
        rcases ih changed with h | h | ⟨document, h, hu, hc⟩
        · rw [h]
          cases changed with
          | none => exact .inr (.inl rfl)
          | some document => exact .inr (.inr ⟨document, rfl, hnew document rfl⟩)
        · exact .inr (.inl h)
        · refine .inr (.inr ⟨document, h, hu, ?_⟩)
          rcases hc with hc | ⟨old, ho, hc⟩
          · exact .inl hc
          · rw [hc]
            exact (hnew old ho).createTime
      · exact ih entry
    · exact ih entry

variable {codec}

theorem WroteRows.documentNow_eq {service service' : FirestoreService β} {p p' : Persistence β}
    {database : String} {writes : List Write} {now : Timestamp} {before : Documents}
    (wrote : WroteRows codec p p' database writes now before)
    (hp : service.persistence = some p) (hp' : service'.persistence = some p') (name : String) :
    documentNow codec service' name =
      (writeOps now).entryAfter name (documentNow codec service name) writes := by
  rw [documentNow_sqlite codec hp, documentNow_sqlite codec hp', storedDocument, wrote.rows name]
  split
  · rename_i ht
    rw [KeyedOps.after_getElem?, wrote.loaded name, if_pos ht]
    cases (writeOps now).entryAfter name (storedDocument codec p.documents name) writes <;>
      simp [codec.decode_encode, Except.toOption]
  · rename_i ht
    have hn : ∀ write ∈ writes, (writeOps now).key write ≠ .ok name :=
      fun write hw hk => ht ⟨write, hw, hk⟩
    rw [KeyedOps.entryAfter_unnamed hn]
    rfl

theorem MemoryEffect.documentNow_eq {service service' : FirestoreService β} {writes : List Write}
    {now : Timestamp} {tokens : ExtTreeMap Bytes String} {events : List DocumentEvent}
    (effect : MemoryEffect service service'
      ((writeOps now).after service.store.documents writes) tokens events)
    (hm : service.persistence = none) (name : String) :
    documentNow codec service' name =
      (writeOps now).entryAfter name (documentNow codec service name) writes := by
  rw [documentNow_memory codec hm, documentNow_memory codec effect.persistence, effect.documents,
    KeyedOps.after_getElem?]

/-- A document after a call is what it was, or gone, or a version the call stores. -/
def Versioned (codec : DocumentCodec β) (service : FirestoreService β) (call : Call)
    (service' : FirestoreService β) : Prop :=
  ∀ name, documentNow codec service' name = documentNow codec service name ∨
    documentNow codec service' name = none ∨
    ∃ document, documentNow codec service' name = some document ∧
      call.Stores codec service name ∧
      NewVersion (documentNow codec service name) call.now document

theorem Versioned.refl (service : FirestoreService β) (call : Call) :
    Versioned codec service call service := fun _ => .inl rfl

/-- A call that applies its writes to the documents they name. -/
theorem versioned_of_writes {service service' : FirestoreService β} {call : Call}
    {writes : List Write} (hw : call.request.writes = writes)
    (hcreate : ∀ request, call.request ≠ .createDocument request)
    (h : ∀ name, documentNow codec service' name =
      (writeOps call.now).entryAfter name (documentNow codec service name) writes) :
    Versioned codec service call service' := by
  subst hw
  intro name
  rw [h name]
  rcases entryAfter_version call.now name (documentNow codec service name) call.request.writes with
    he | he | ⟨document, he, hnew⟩
  · exact .inl he
  · exact .inr (.inl he)
  · refine .inr (.inr ⟨document, he, ?_, hnew⟩)
    unfold Call.Stores
    split
    · rename_i request hr
      exact absurd hr (hcreate request)
    · exact ⟨document, he, hnew.updateTime⟩

/-- A create leaves its document as a new version and the others alone. -/
theorem versioned_create {service service' : FirestoreService β} {request : CreateDocumentRequest}
    {now : Timestamp} {uuid : Bytes} {document : Document} {documentId name : String}
    (hid : documentId = service.takenId request.documentId)
    {contains : String → Bool}
    (hc : createCheck request documentId contains = .ok (document, name))
    (hnow : ∀ other, documentNow codec service' other =
      if name = other then some (createdDocument document name now)
      else documentNow codec service other) :
    Versioned codec service ⟨.createDocument request, now, uuid⟩ service' := by
  intro other
  rw [hnow other]
  split
  · rename_i he
    refine .inr (.inr ⟨_, rfl, ?_, rfl, .inl rfl⟩)
    show other = _
    rw [← he, (createCheck_ok hc).2.2, hid]
  · exact .inl rfl

/-- A clear keeps a document or removes it. -/
theorem clearDatabase_documentNow (service : FirestoreService β) (database name : String) :
    documentNow codec (clearDatabase service database).2 name = documentNow codec service name ∨
      documentNow codec (clearDatabase service database).2 name = none := by
  unfold clearDatabase
  cases databaseDocumentPrefix database with
  | error status => exact .inl rfl
  | ok pre =>
    cases hp : service.persistence with
    | none =>
      have hm : ∀ store, (service.setStore store).notify.persistence = none := fun _ => hp
      dsimp only
      rw [documentNow_memory codec hp, documentNow_memory codec (hm _)]
      show (ExtTreeMap.filter _ service.store.documents)[name]? = _ ∨
        (ExtTreeMap.filter _ service.store.documents)[name]? = none
      rw [ExtTreeMap.getElem?_filter']
      cases service.store.documents[name]? with
      | none => exact .inl rfl
      | some document =>
        rw [Option.filter_some]
        split
        · exact .inl rfl
        · exact .inr rfl
    | some p =>
      dsimp only
      rw [documentNow_sqlite codec hp, documentNow_sqlite codec rfl, storedDocument,
        storedDocument, ExtTreeMap.getElem?_filter']
      cases p.documents[name]? with
      | none => exact .inl rfl
      | some row =>
        rw [Option.filter_some]
        split
        · exact .inl rfl
        · exact .inr rfl

/-- What every call does to the versions of documents. -/
theorem handle_versioned (service : FirestoreService β) (call : Call) :
    Versioned codec service call (handle codec service call).2 := by
  obtain ⟨request, now, uuid⟩ := call
  have hreads : ∀ call, call.request.Reads →
      Versioned codec service call (handle codec service call).2 := by
    intro call hr name
    obtain ⟨tokens, hh⟩ := handle_reads codec service call hr
    rw [hh]
    exact .inl rfl
  cases request with
  | batchGetDocuments request => exact hreads ⟨.batchGetDocuments request, now, uuid⟩ trivial
  | beginTransaction database => exact hreads ⟨.beginTransaction database, now, uuid⟩ trivial
  | rollback request => exact hreads ⟨.rollback request, now, uuid⟩ trivial
  | runQuery request => exact hreads ⟨.runQuery request, now, uuid⟩ trivial
  | commit request =>
    cases hp : service.persistence with
    | none =>
      rcases commit_memory codec service hp request now with
        ⟨status, hc, -⟩ | ⟨results, service', hc, -, -, effect⟩ <;> simp only [handle, answer, hc]
      · exact .refl service _
      · exact versioned_of_writes rfl (by simp) (effect.documentNow_eq hp)
    | some p =>
      rcases commit_sqlite codec hp request now with
        ⟨status, hc, -⟩ | ⟨before, p', service', hc, -, -, wrote, hp', -⟩ <;>
        simp only [handle, answer, hc]
      · exact .refl service _
      · exact versioned_of_writes rfl (by simp) (wrote.documentNow_eq hp hp')
  | batchWrite request =>
    cases hp : service.persistence with
    | none =>
      obtain ⟨service', hb, effect⟩ := batchWrite_memory codec service hp request now
      simp only [handle, answer, hb]
      exact versioned_of_writes rfl (by simp) (effect.documentNow_eq hp)
    | some p =>
      rcases batchWrite_sqlite codec hp request now with
        ⟨status, hb, -⟩ | ⟨before, p', service', hb, wrote, hp', -⟩ <;>
        simp only [handle, answer, hb]
      · exact .refl service _
      · exact versioned_of_writes rfl (by simp) (wrote.documentNow_eq hp hp')
  | updateDocument request =>
    cases hd : request.document with
    | none =>
      simp only [handle, answer, updateDocument_none codec service hd]
      exact .refl service _
    | some document =>
      have hwrites : (Request.updateDocument request).writes = [updateWrite request document] := by
        simp [Request.writes, hd]
      cases hp : service.persistence with
      | none =>
        rcases updateDocument_memory codec service hp hd now with
          ⟨status, hu, -⟩ | ⟨stored, service', hu, -, -, effect⟩ <;> simp only [handle, answer, hu]
        · exact .refl service _
        · exact versioned_of_writes hwrites (by simp) (effect.documentNow_eq hp)
      | some p =>
        rcases updateDocument_sqlite codec hp hd now with
          ⟨status, hu, -⟩ | ⟨stored, database, before, p', service', -, hu, -, -, wrote, hp', -⟩ <;>
          simp only [handle, answer, hu]
        · exact .refl service _
        · exact versioned_of_writes hwrites (by simp) (wrote.documentNow_eq hp hp')
  | deleteDocument request =>
    cases hp : service.persistence with
    | none =>
      rcases deleteDocument_memory codec service hp request now with
        ⟨status, hd, -⟩ | ⟨service', hd, -, effect⟩ <;> simp only [handle, answer, hd]
      · exact .refl service _
      · exact versioned_of_writes rfl (by simp) (effect.documentNow_eq hp)
    | some p =>
      rcases deleteDocument_sqlite codec hp request now with
        ⟨status, hd, -⟩ | ⟨database, before, p', service', -, hd, -, wrote, hp', -⟩ <;>
        simp only [handle, answer, hd]
      · exact .refl service _
      · exact versioned_of_writes rfl (by simp) (wrote.documentNow_eq hp hp')
  | createDocument request =>
    cases hp : service.persistence with
    | none =>
      rcases createDocument_memory codec service hp request now with
        ⟨status, service', hc, -, effect⟩ | ⟨document, name, service', hc, hchecked, effect⟩ <;>
        simp only [handle, answer, hc]
      · intro name
        rw [documentNow_memory codec hp, documentNow_memory codec effect.persistence,
          effect.documents]
        exact .inl rfl
      · refine versioned_create ?_ hchecked fun other => ?_
        · simp only [FirestoreService.takenId, hp]
        · rw [documentNow_memory codec hp, documentNow_memory codec effect.persistence,
            effect.documents, getElem?_put]
    | some p =>
      rcases createDocument_sqlite codec hp request now with
        ⟨status, hc, -⟩ | ⟨document, name, database, p', service', hc, hchecked, -, hr, -, hp', -⟩ <;>
        simp only [handle, answer, hc]
      · exact .refl service _
      · refine versioned_create ?_ hchecked fun other => ?_
        · simp only [FirestoreService.takenId, hp]
        · rw [documentNow_sqlite codec hp, documentNow_sqlite codec hp', storedDocument, hr,
            insert_eq_put, getElem?_put]
          split
          · simp [codec.decode_encode, Except.toOption]
          · rfl
  | clearDatabase database =>
    intro name
    rcases clearDatabase_documentNow service database name with h | h
    · exact .inl h
    · exact .inr (.inl h)

/-- Where a version comes from: the start, or an effect that stored it. -/
structure Sourced (codec : DocumentCodec β) (floor : Timestamp) (past : List (Effect β))
    (name : String) (document : Document) (created updated : Timestamp) : Prop where
  createTime : document.createTime = some created
  updateTime : document.updateTime = some updated
  le : created ≤ updated
  source : updated ≤ floor ∨
    ∃ effect ∈ past, updated = effect.2.now ∧ effect.2.Stores codec effect.1 name

theorem Sourced.cons {floor : Timestamp} {past : List (Effect β)} {name : String}
    {document : Document} {created updated : Timestamp}
    (h : Sourced codec floor past name document created updated) (effect : Effect β) :
    Sourced codec floor (effect :: past) name document created updated := by
  refine ⟨h.createTime, h.updateTime, h.le, ?_⟩
  rcases h.source with h | ⟨other, hm, ho⟩
  · exact .inl h
  · exact .inr ⟨other, List.mem_cons_of_mem _ hm, ho⟩

/-- The invariant of an interleaving without overtaking: all readings are later than the
start, every version has its source, and versions do not go backwards. -/
structure InOrder (codec : DocumentCodec β) (floor : Timestamp) (past : List (Effect β))
    (state : Race β) : Prop where
  clock : floor ≤ state.clock
  waiting : ∀ call ∈ state.waiting, floor < call.now
  sourced : ∀ service ∈ state.service :: past.map Prod.fst, ∀ name document,
    documentNow codec service name = some document →
    ∃ created updated, Sourced codec floor past name document created updated
  grow : ∀ name, (state.service :: past.map Prod.fst).Pairwise fun later earlier =>
    ∀ document document', documentNow codec later name = some document →
      documentNow codec earlier name = some document' →
      ∃ updated updated', document.updateTime = some updated ∧
        document'.updateTime = some updated' ∧ updated' ≤ updated

/-- A call that overtakes nothing has a reading after all it stores over. -/
theorem Sourced.le_now {floor : Timestamp} {past : List (Effect β)} {name : String}
    {document : Document} {created updated : Timestamp}
    (h : Sourced codec floor past name document created updated)
    {service : FirestoreService β} {call : Call} (hfloor : floor < call.now)
    (horder : ∀ earlier ∈ past, NoOvertaking codec (service, call) earlier)
    (hstores : call.Stores codec service name) : updated ≤ call.now := by
  rcases h.source with hstart | ⟨earlier, hm, rfl, hs⟩
  · exact (lt_of_le_of_lt hstart hfloor).le
  · exact not_lt.mp fun hlt => horder earlier hm hlt name hstores hs

/-- The effect of a call that overtakes nothing. -/
theorem InOrder.effect {floor clock : Timestamp} {past : List (Effect β)} {state : Race β}
    (h : InOrder codec floor past state) {call : Call} {waiting : List Call}
    (hclock : floor ≤ clock) (hwaiting : ∀ other ∈ waiting, floor < other.now)
    (hnow : floor < call.now)
    (horder : ∀ earlier ∈ past, NoOvertaking codec (state.service, call) earlier) :
    InOrder codec floor ((state.service, call) :: past)
      ⟨(handle codec state.service call).2, clock, waiting⟩ := by
  have hversioned := @handle_versioned _ codec state.service call
  refine ⟨hclock, hwaiting, ?_, fun name => List.pairwise_cons.mpr ⟨?_, h.grow name⟩⟩
  · rintro service hm name document hd
    rcases List.mem_cons.mp hm with rfl | hm
    · rcases hversioned name with he | he | ⟨document', he, hstores, hnew⟩
      · rw [he] at hd
        obtain ⟨created, updated, hs⟩ := h.sourced state.service List.mem_cons_self name document hd
        exact ⟨created, updated, hs.cons _⟩
      · rw [he] at hd
        cases hd
      · obtain rfl := Option.some.inj (he.symm.trans hd)
        have hsource : call.now ≤ floor ∨ ∃ effect ∈ (state.service, call) :: past,
            call.now = effect.2.now ∧ effect.2.Stores codec effect.1 name :=
          .inr ⟨(state.service, call), List.mem_cons_self, rfl, hstores⟩
        rcases hnew.createTime with hc | ⟨old, ho, hc⟩
        · exact ⟨call.now, call.now, hc, hnew.updateTime, le_refl _, hsource⟩
        · obtain ⟨created, updated, hs⟩ := h.sourced state.service List.mem_cons_self name old ho
          exact ⟨created, call.now, hc.trans hs.createTime, hnew.updateTime,
            hs.le.trans (hs.le_now hnow horder hstores), hsource⟩
    · obtain ⟨created, updated, hs⟩ := h.sourced service hm name document hd
      exact ⟨created, updated, hs.cons _⟩
  · intro service hm document document' hd hd'
    obtain ⟨created', updated', hs'⟩ := h.sourced service hm name document' hd'
    rcases hversioned name with he | he | ⟨new, he, hstores, hnew⟩
    · rw [he] at hd
      rcases List.mem_cons.mp hm with rfl | hm
      · obtain rfl := Option.some.inj (hd.symm.trans hd')
        exact ⟨updated', updated', hs'.updateTime, hs'.updateTime, le_refl _⟩
      · exact (List.pairwise_cons.mp (h.grow name)).1 service hm document document' hd hd'
    · rw [he] at hd
      cases hd
    · obtain rfl := Option.some.inj (he.symm.trans hd)
      exact ⟨call.now, updated', hnew.updateTime, hs'.updateTime, hs'.le_now hnow horder hstores⟩

end FirebaseEmu.Firestore
