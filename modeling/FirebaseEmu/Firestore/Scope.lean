import FirebaseEmu.Firestore.Durable
import FirebaseEmu.Firestore.Memory
import FirebaseEmu.Firestore.Sample
import FirebaseEmu.Lib.Since

namespace FirebaseEmu.Firestore
open Lib Std

variable {β : Type} (codec : DocumentCodec β)

/-- The name is outside the document tree of the database. -/
def Outside (database name : String) : Prop := startsWith name (database ++ "/documents/") = false

/-- Every document outside the database is what it was. -/
def OutsideKept (service service' : FirestoreService β) (database : String) : Prop :=
  ∀ name, Outside database name → document codec service' name = document codec service name

/-- The last of the writes that names the document deletes one that was not stored, or
stores again exactly the document that was, its timestamps included. -/
def LeavesStored (writeTime : Timestamp) (stored : Option Document) (writes : List Write)
    (name : String) : Prop :=
  ∀ earlier write later, writes = earlier ++ write :: later → writeName write = .ok name →
    (∀ other ∈ later, writeName other ≠ .ok name) →
    match write.operation with
    | some (.delete _) => stored = none
    | _ => ∃ document result, stored = some document ∧ document.updateTime = some writeTime ∧
        writeDocument ((writeOps writeTime).entryAfter name stored earlier) write writeTime =
          .ok (result, some document)

/-- No write is refused in its turn. -/
def AllAccepted (writeTime : Timestamp) (documents : Documents) (writes : List Write) : Prop :=
  ∀ outcome ∈ (writeOps writeTime).outcomes documents writes, outcome.isOk

/-- When a commit stays inside its database: on the SQLite backend; when its token or one
of its writes is refused; and when it leaves what it names outside as it was stored. -/
def CommitStays (service : FirestoreService β) (request : CommitRequest)
    (commitTime : Timestamp) : Prop :=
  service.persistence = none →
  checkTransaction service.store request.database request.transaction = .ok () →
  AllAccepted commitTime service.store.documents request.writes →
  ∀ name, Outside request.database name →
    LeavesStored commitTime service.store.documents[name]? request.writes name

/-- When a batch write does: only its accepted writes count. -/
def BatchWriteStays (service : FirestoreService β) (request : BatchWriteRequest)
    (writeTime : Timestamp) : Prop :=
  service.persistence = none →
  ∀ name, Outside request.database name →
    LeavesStored writeTime service.store.documents[name]?
      ((writeOps writeTime).accepted service.store.documents request.writes) name

/-- Accepted writes leave an entry alone exactly when the last that names it does. -/
theorem leavesStored_iff {writeTime : Timestamp} {documents : Documents} {writes : List Write}
    (hall : AllAccepted writeTime documents writes) (name : String) :
    LeavesStored writeTime documents[name]? writes name ↔
      ((writeOps writeTime).after documents writes)[name]? = documents[name]? := by
  constructor
  · intro h
    by_cases hn : ∃ write ∈ writes, writeName write = .ok name
    · obtain ⟨earlier, write, later, rfl, hw, hl⟩ := since_self hn
      have hlast := h earlier write later rfl hw hl
      obtain ⟨result, he⟩ := KeyedOps.after_last hall hw hl
      split at hlast
      · rename_i ho
        rw [hlast] at he ⊢
        exact writeDocument_delete ho he
      · obtain ⟨document, result', hs, -, hd⟩ := hlast
        have heq := Except.ok.inj (he.symm.trans hd)
        rw [hs]
        exact (Prod.mk.inj heq).2
    · exact KeyedOps.after_unnamed (fun write hw hk => hn ⟨write, hw, hk⟩) documents
  · rintro h earlier write later rfl hw hl
    obtain ⟨result, he⟩ := KeyedOps.after_last hall hw hl
    rw [h] at he
    split
    · rename_i ho
      exact writeDocument_delete ho he
    · rename_i hdelete
      obtain ⟨name', hn', -, hd⟩ := writeDocument_ok he
      cases ho : write.operation with
      | none => simp [writeName, ho] at hw
      | some operation =>
        cases operation with
        | update document =>
          obtain ⟨stored, hs⟩ := writeDocument_update ho he
          exact ⟨stored, result, hs, (hd stored hs).2.1, hs ▸ he⟩
        | delete name => exact absurd ho (hdelete name)
        | transform name => simp [writeOps, writeDocument, ho, throw, throwThe,
            MonadExceptOf.throw] at he

/-- A document that a checked write names is inside the database. -/
theorem not_outside_of_touched {database : String} {writes : List Write}
    (h : validateWritesDatabase database writes = .ok ()) {name : String}
    (ht : Touched writes name) : ¬ Outside database name := by
  obtain ⟨write, hw, hn⟩ := ht
  obtain ⟨name', hn', hv, hd⟩ := (validateWritesDatabase_ok h).2 write hw
  obtain rfl := Except.ok.inj (hn.symm.trans hn')
  obtain ⟨n⟩ := documentName_of_valid hv
  obtain rfl := Except.ok.inj (n.databaseFromResource_eq.symm.trans hd)
  have hs := (n.startsWith_iff ⟨_, _, n.split_database⟩).mpr rfl
  simp [Outside, hs]

theorem WroteRows.outside {p p' : Persistence β} {database : String} {writes : List Write}
    {writeTime : Timestamp} {before : Documents}
    (wrote : WroteRows codec p p' database writes writeTime before) {name : String}
    (ho : Outside database name) : p'.documents[name]? = p.documents[name]? :=
  (wrote.rows name).trans (if_neg fun ht => not_outside_of_touched wrote.valid ht ho)

variable {codec} in
theorem WroteRows.outsideKept {service service' : FirestoreService β} {p p' : Persistence β}
    {database : String} {writes : List Write} {writeTime : Timestamp} {before : Documents}
    (wrote : WroteRows codec p p' database writes writeTime before)
    (hp : service.persistence = some p) (hp' : service'.persistence = some p') :
    OutsideKept codec service service' database := by
  intro name ho
  simp only [document, hp, hp', wrote.outside codec ho]

/-- In memory the documents outside are kept when their entries are. -/
theorem outsideKept_memory {service service' : FirestoreService β}
    (hm : service.persistence = none) (hm' : service'.persistence = none) (database : String) :
    OutsideKept codec service service' database ↔
      ∀ name, Outside database name →
        service'.store.documents[name]? = service.store.documents[name]? := by
  simp [OutsideKept, document, hm, hm']

/-- On either backend and for every request, the documents outside the request's database
are kept exactly under the conditions above: only the SQLite path checks where the writes
go. -/
theorem outside_documents_kept_iff (service : FirestoreService β) (time : Timestamp) :
    (∀ request, OutsideKept codec service (commit codec service request time).2 request.database ↔
      CommitStays service request time) ∧
    (∀ request, OutsideKept codec service (batchWrite codec service request time).2
      request.database ↔ BatchWriteStays service request time) := by
  cases hp : service.persistence with
  | some p =>
    have hsqlite : ¬ service.persistence = none := by simp [hp]
    refine ⟨fun request => iff_of_true ?_ fun hm => absurd hm hsqlite,
      fun request => iff_of_true ?_ fun hm => absurd hm hsqlite⟩
    · rcases commit_sqlite codec hp request time with
        ⟨status, hc, -⟩ | ⟨before, p', service', hc, -, -, wrote, hp', -⟩
      · rw [hc]
        exact fun name _ => rfl
      · rw [hc]
        exact wrote.outsideKept hp hp'
    · rcases batchWrite_sqlite codec hp request time with
        ⟨status, hb, -⟩ | ⟨before, p', service', hb, wrote, hp', -⟩
      · rw [hb]
        exact fun name _ => rfl
      · rw [hb]
        exact wrote.outsideKept hp hp'
  | none =>
    refine ⟨fun request => ?_, fun request => ?_⟩
    · rcases commit_memory codec service hp request time with
        ⟨status, hc, hr⟩ | ⟨results, service', hc, hchecked, ho, effect⟩
      · rw [hc]
        refine iff_of_true (fun name _ => rfl) fun _ hchecked hall => ?_
        rcases hr with hr | ⟨-, hr⟩
        · rw [hchecked] at hr
          cases hr
        · have hok := (allOk_isOk _).mpr hall
          rw [hr] at hok
          cases hok
      · have hall : AllAccepted time service.store.documents request.writes := by
          rw [AllAccepted, ← allOk_isOk, ho]
          rfl
        rw [hc, outsideKept_memory codec hp effect.persistence]
        simp only [effect.documents, ← leavesStored_iff hall]
        exact ⟨fun h _ _ _ => h, fun h => h hp hchecked hall⟩
    · obtain ⟨service', hb, effect⟩ := batchWrite_memory codec service hp request time
      have hall : AllAccepted time service.store.documents
          ((writeOps time).accepted service.store.documents request.writes) := by
        rw [AllAccepted, KeyedOps.outcomes_accepted]
        exact fun outcome h => (List.mem_filter.mp h).2
      rw [hb, outsideKept_memory codec hp effect.persistence]
      simp only [effect.documents, ← KeyedOps.after_accepted (k := writeOps time) _ request.writes,
        ← leavesStored_iff hall]
      exact ⟨fun h _ => h, fun h => h hp⟩

/-- An in-memory commit for one database that creates a document of another. -/
theorem commit_writes_other_database :
    ¬ ∀ (service : FirestoreService Document) (request : CommitRequest) (time : Timestamp),
      OutsideKept plainCodec service (commit plainCodec service request time).2
        request.database := by
  intro h
  have hkept := h sampleMemory ⟨sampleDatabase, [sampleSet (sampleName otherDatabase "a") []], []⟩
    (sampleTime 1) (sampleName otherDatabase "a") rfl
  have := congrArg (fun outcome => (outcome.toOption.map Option.isSome)) hkept
  exact absurd this (by decide)

end FirebaseEmu.Firestore
