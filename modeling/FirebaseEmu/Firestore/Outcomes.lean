import FirebaseEmu.Firestore.Handlers
import FirebaseEmu.Lib.KeyedOps

namespace FirebaseEmu.Firestore
open Lib Std

/-- The writes of a request as operations that each name one document. -/
def writeOps (writeTime : Timestamp) : KeyedOps String Document Write Status WriteResult :=
  ⟨writeName, fun request existing => writeDocument existing request writeTime⟩

/-- `applyWrite` is the operation that `writeDocument` describes on one document. -/
theorem applyWrite_eq_apply (documents : Documents) (request : Write) (writeTime : Timestamp) :
    applyWrite documents request writeTime = (writeOps writeTime).apply documents request := by
  unfold KeyedOps.apply
  cases hn : (writeOps writeTime).key request with
  | error status => exact applyWrite_unnamed documents writeTime hn
  | ok name =>
    rw [applyWrite_eq documents writeTime hn]
    simp only [writeOps]
    cases writeDocument documents[name]? request writeTime <;> rfl

/-- What the response lists for a write. -/
def resultOf : Except Status WriteResult → WriteResult
  | .ok result => result
  | .error _ => .default

def rpcStatusOf : Except Status WriteResult → RpcStatus
  | .ok _ => .default
  | .error status => statusProto status

theorem map_resultOf {outcomes : List (Except Status WriteResult)} {results : List WriteResult}
    (h : allOk outcomes = .ok results) : outcomes.map resultOf = results := by
  rw [allOk_eq_ok.mp h, List.map_map]
  exact List.map_id _

theorem rpcStatusOf_code {outcome : Except Status WriteResult} :
    (rpcStatusOf outcome).code = 0 ↔ outcome.isOk := by
  cases outcome with
  | ok result => simp [rpcStatusOf, RpcStatus.default, Except.isOk, Except.toBool]
  | error status => simp [rpcStatusOf, statusProto_code_ne, Except.isOk, Except.toBool]

section Loops
variable (writeTime : Timestamp)

/-- The loop of an in-memory commit: every answer or the first refusal. -/
theorem pendingWrites_fst (documents : Documents) (writes : List Write)
    (results : List WriteResult) :
    (pendingWrites writeTime documents writes results).1 =
      (allOk ((writeOps writeTime).outcomes documents writes)).map (results ++ ·) := by
  induction writes generalizing documents results with
  | nil => simp [pendingWrites, KeyedOps.outcomes, allOk, Except.map]
  | cons write writes ih =>
    unfold pendingWrites KeyedOps.outcomes
    rw [← applyWrite_eq_apply]
    cases ha : applyWrite documents write writeTime with
    | mk outcome after =>
      cases outcome with
      | error status => rfl
      | ok result =>
        dsimp only
        rw [ih, allOk]
        cases allOk ((writeOps writeTime).outcomes after writes) <;> simp [Except.map]

variable {writeTime} in
theorem pendingWrites_snd {documents : Documents} {writes : List Write}
    {results all : List WriteResult}
    (h : (pendingWrites writeTime documents writes results).1 = .ok all) :
    (pendingWrites writeTime documents writes results).2 =
      (writeOps writeTime).after documents writes := by
  induction writes generalizing documents results with
  | nil => rfl
  | cons write writes ih =>
    rw [KeyedOps.after_cons, ← applyWrite_eq_apply]
    unfold pendingWrites at h ⊢
    cases ha : applyWrite documents write writeTime with
    | mk outcome after =>
      rw [ha] at h
      cases outcome with
      | error status => cases h
      | ok result => exact ih h

/-- The loop of an in-memory batch write answers for every write. -/
theorem batchWrites_eq (documents : Documents) (writes : List Write) (results : List WriteResult)
    (statuses : List RpcStatus) :
    batchWrites writeTime documents writes results statuses =
      let outcomes := (writeOps writeTime).outcomes documents writes
      ((results ++ outcomes.map resultOf, statuses ++ outcomes.map rpcStatusOf),
        (writeOps writeTime).after documents writes) := by
  induction writes generalizing documents results statuses with
  | nil => simp [batchWrites, KeyedOps.outcomes]
  | cons write writes ih =>
    unfold batchWrites KeyedOps.outcomes
    rw [KeyedOps.after_cons, ← applyWrite_eq_apply]
    cases ha : applyWrite documents write writeTime with
    | mk outcome after =>
      cases outcome <;> dsimp only <;> rw [ih] <;> simp [resultOf, rpcStatusOf]

/-- The write loop of the SQLite backend is the in-memory loop: the one of a batch
write when partial success is allowed, and else the one of a commit. -/
theorem applyWrites_lenient (documents : Documents) (writes : List Write)
    (results : List WriteResult) (statuses : List RpcStatus) :
    applyWrites writeTime true documents writes results statuses =
      (.ok (batchWrites writeTime documents writes results statuses).1,
        (batchWrites writeTime documents writes results statuses).2) := by
  induction writes generalizing documents results statuses with
  | nil => rfl
  | cons write writes ih =>
    unfold applyWrites batchWrites
    cases applyWrite documents write writeTime with
    | mk outcome after =>
      cases outcome with
      | ok result => exact ih ..
      | error status => exact ih ..

theorem applyWrites_strict (documents : Documents) (writes : List Write)
    (results : List WriteResult) (statuses : List RpcStatus) :
    applyWrites writeTime false documents writes results statuses =
      ((pendingWrites writeTime documents writes results).1.map fun all =>
          (all, statuses ++ writes.map fun _ => .default),
        (pendingWrites writeTime documents writes results).2) := by
  induction writes generalizing documents results statuses with
  | nil => simp [applyWrites, pendingWrites, Except.map]
  | cons write writes ih =>
    unfold applyWrites pendingWrites
    cases applyWrite documents write writeTime with
    | mk outcome after =>
      cases outcome with
      | ok result => simp [ih]
      | error status => rfl

end Loops

/-- A single accepted update leaves the document its request names. -/
theorem update_stored {documents : Documents} {now : Timestamp} {request : UpdateDocumentRequest}
    {document : Document}
    (h : (allOk ((writeOps now).outcomes documents [updateWrite request document])).isOk) :
    ∃ stored, ((writeOps now).after documents [updateWrite request document])[document.name]? =
      some stored := by
  have hname : (writeOps now).key (updateWrite request document) = .ok document.name := rfl
  have hall : ∀ outcome ∈ (writeOps now).outcomes documents
      ([] ++ updateWrite request document :: []), outcome.isOk := (allOk_isOk _).mp h
  obtain ⟨result, he⟩ := KeyedOps.after_last hall hname (by simp)
  exact writeDocument_update (show (updateWrite request document).operation = _ from rfl) he

/-- The checks a create request passes through before a document is stored, with the
identifier taken for it and the names there are. -/
def createCheck (request : CreateDocumentRequest) (documentId : String)
    (contains : String → Bool) : Except Status (Document × String) :=
  match request.document with
  | none => .error (invalidArgument "document is required")
  | some document =>
    if request.parent = "" ∨ request.collectionId = "" then
      .error (invalidArgument "parent and collection_id are required")
    else match validateDocumentName (createdName request documentId) with
    | .error status => .error status
    | .ok () =>
      if contains (createdName request documentId) then
        .error (alreadyExists (createdName request documentId))
      else .ok (document, createdName request documentId)

theorem createCheck_ok {request : CreateDocumentRequest} {documentId : String}
    {contains : String → Bool} {document : Document} {name : String}
    (h : createCheck request documentId contains = .ok (document, name)) :
    validateDocumentName name = .ok () ∧ contains name = false ∧
      name = createdName request documentId := by
  unfold createCheck at h
  split at h
  · cases h
  split at h
  · cases h
  split at h
  · cases h
  rename_i hv
  split at h
  · cases h
  · rename_i hc
    obtain ⟨-, rfl⟩ := Prod.mk.inj (Except.ok.inj h)
    exact ⟨hv, by simpa using hc, rfl⟩

end FirebaseEmu.Firestore
