import FirebaseEmu.Firestore.Compare
import FirebaseEmu.Firestore.Fields
import FirebaseEmu.Lib.Maps

namespace FirebaseEmu.Firestore
open Lib Std

/-- The stored documents under their names. -/
abbrev Documents := ExtTreeMap String Document

def checkPrecondition (existing : Option Document) (condition : Option Precondition) :
    Except Status Unit :=
  match condition.bind Precondition.conditionType with
  | none => .ok ()
  | some (.existence expected) =>
    if expected = existing.isSome then .ok ()
    else .error ⟨.failedPrecondition, "document existence precondition failed"⟩
  | some (.updateTime expected) =>
    if existing.bind Document.updateTime = some expected then .ok ()
    else .error ⟨.failedPrecondition, "document update_time precondition failed"⟩

def saturatingAdd (a b : Int64) : Int64 :=
  if a.toInt + b.toInt < -2 ^ 63 then .minValue
  else if 2 ^ 63 ≤ a.toInt + b.toInt then .maxValue
  else a + b

def numericIncrement (current : Option Value) (operand : Value) : Except Status Value :=
  match current, operand with
  | _, .unset => .error (invalidArgument "increment operand is required")
  | some (.integerValue a), .integerValue b => .ok (.integerValue (saturatingAdd a b))
  | some (.integerValue a), .doubleValue b => .ok (.doubleValue ((Binary64.ofInt a.toInt).add b))
  | some (.doubleValue a), .integerValue b => .ok (.doubleValue (a.add (.ofInt b.toInt)))
  | some (.doubleValue a), .doubleValue b => .ok (.doubleValue (a.add b))
  | _, .integerValue b => .ok (.integerValue b)
  | _, .doubleValue b => .ok (.doubleValue b)
  | _, _ => .error (invalidArgument "increment operand must be numeric")

def appendMissing (values candidates : List Value) : List Value :=
  candidates.foldl (fun values candidate =>
    if values.any (transformValueEqual · candidate) then values else values ++ [candidate]) values

def unimplementedTransform : Status :=
  ⟨.unimplemented, "requested field transform is not implemented"⟩

/-- The check made before the field path is parsed; 1 is `REQUEST_TIME`. -/
def checkTransform : Option TransformType → Except Status Unit
  | some (.increment _) | some (.appendMissingElements _) => .ok ()
  | some (.setToServerValue value) =>
    if value = 1 then .ok () else .error unimplementedTransform
  | _ => .error unimplementedTransform

def transformResult (requestTime : Timestamp) (current : Option Value) :
    Option TransformType → Except Status Value
  | some (.increment operand) => numericIncrement current operand
  | some (.appendMissingElements elements) =>
    let values := match current with
      | some (.arrayValue values) => values
      | _ => []
    .ok (.arrayValue (appendMissing values elements))
  | some (.setToServerValue value) =>
    if value = 1 then .ok (.timestampValue requestTime) else .error unimplementedTransform
  | _ => .error unimplementedTransform

/-- One turn of the loop of `applyUpdateTransforms`: the path written and its value. -/
def applyTransform (requestTime : Timestamp) (document : Document) (transform : FieldTransform) :
    Except Status (List String × Value) := do
  checkTransform transform.transformType
  let path ← fieldPath transform.fieldPath
  let result ← transformResult requestTime (nestedGet document.fields path) transform.transformType
  pure (path, result)

/-- Returns the document as it stands when the loop ends, also when it ends early. -/
def applyUpdateTransforms (requestTime : Timestamp) :
    Document → List FieldTransform → List Value → Except Status (List Value) × Document
  | document, [], results => (.ok results, document)
  | document, transform :: transforms, results =>
    match applyTransform requestTime document transform with
    | .error status => (.error status, document)
    | .ok (path, result) =>
      applyUpdateTransforms requestTime
        { document with fields := nestedSet document.fields path (some result) }
        transforms (results ++ [result])

/-- The store is returned beside the result: it is what a caller is left with, whether
the write succeeded or not. -/
def applyWrite (documents : Documents) (request : Write) (writeTime : Timestamp) :
    Except Status WriteResult × Documents :=
  match request.operation with
  | some (.update document) =>
    match validateDocumentName document.name with
    | .error status => (.error status, documents)
    | .ok () =>
      let existing := documents[document.name]?
      match checkPrecondition existing request.currentDocument with
      | .error status => (.error status, documents)
      | .ok () =>
        match mergeDocument existing document request.updateMask with
        | .error status => (.error status, documents)
        | .ok document =>
          match applyUpdateTransforms writeTime document request.updateTransforms [] with
          | (.error status, _) => (.error status, documents)
          | (.ok transformResults, document) =>
            let createTime := (existing.bind Document.createTime).getD writeTime
            let document := { document with
              createTime := some createTime, updateTime := some writeTime }
            (.ok ⟨some writeTime, transformResults⟩, documents.insert document.name document)
  | some (.delete name) =>
    match validateDocumentName name with
    | .error status => (.error status, documents)
    | .ok () =>
      match checkPrecondition documents[name]? request.currentDocument with
      | .error status => (.error status, documents)
      | .ok () => (.ok ⟨some writeTime, []⟩, documents.erase name)
  | some (.transform _) =>
    (.error ⟨.unimplemented, "document transforms are not implemented"⟩, documents)
  | none => (.error (invalidArgument "write operation is required"), documents)

/-- What a write does to the one document it names, given that document alone: the
result and the document left behind, or the refusal. -/
def writeDocument (existing : Option Document) (request : Write) (writeTime : Timestamp) :
    Except Status (WriteResult × Option Document) := do
  match request.operation with
  | some (.update document) =>
    validateDocumentName document.name
    checkPrecondition existing request.currentDocument
    let document ← mergeDocument existing document request.updateMask
    let (results, document) := applyUpdateTransforms writeTime document request.updateTransforms []
    let results ← results
    pure (⟨some writeTime, results⟩, some { document with
      createTime := some ((existing.bind Document.createTime).getD writeTime)
      updateTime := some writeTime })
  | some (.delete name) =>
    validateDocumentName name
    checkPrecondition existing request.currentDocument
    pure (⟨some writeTime, []⟩, none)
  | some (.transform _) => throw ⟨.unimplemented, "document transforms are not implemented"⟩
  | none => throw (invalidArgument "write operation is required")

theorem applyUpdateTransforms_name (requestTime : Timestamp) (document : Document)
    (transforms : List FieldTransform) (results : List Value) :
    (applyUpdateTransforms requestTime document transforms results).2.name = document.name := by
  induction transforms generalizing document results with
  | nil => rfl
  | cons transform transforms ih =>
    unfold applyUpdateTransforms
    split
    · rfl
    · rw [ih]

/-- A write reads and changes the document it names and nothing else. -/
theorem applyWrite_eq (documents : Documents) {request : Write} (writeTime : Timestamp)
    {name : String} (hn : writeName request = .ok name) :
    applyWrite documents request writeTime =
      match writeDocument documents[name]? request writeTime with
      | .ok (result, after) => (.ok result, put documents name after)
      | .error status => (.error status, documents) := by
  unfold writeName at hn
  unfold applyWrite writeDocument
  split at hn
  · rename_i document ho
    cases hn
    simp only [ho, bind, Except.bind, pure, Except.pure]
    cases hv : validateDocumentName document.name with
    | error status => rfl
    | ok _ =>
      cases hc : checkPrecondition documents[document.name]? request.currentDocument with
      | error status => rfl
      | ok _ =>
        cases hm : mergeDocument documents[document.name]? document request.updateMask with
        | error status => rfl
        | ok merged =>
          have hname := mergeDocument_name hm
          have htname := applyUpdateTransforms_name writeTime merged request.updateTransforms []
          cases ht : applyUpdateTransforms writeTime merged request.updateTransforms [] with
          | mk results after =>
            rw [ht] at htname
            dsimp only at htname
            cases results with
            | error status => simp [ht]
            | ok results => simp [ht, insert_eq_put, htname, hname]
  · rename_i name ho
    cases hn
    simp only [ho, bind, Except.bind, pure, Except.pure]
    cases hv : validateDocumentName name with
    | error status => rfl
    | ok _ =>
      cases hc : checkPrecondition documents[name]? request.currentDocument with
      | error status => rfl
      | ok _ => simp [erase_eq_put]
  · rename_i name ho
    simp [ho, throw, throwThe, MonadExceptOf.throw]
  · cases hn

/-- A write without an operation is refused. -/
theorem applyWrite_unnamed (documents : Documents) {request : Write} (writeTime : Timestamp)
    {status : Status} (hn : writeName request = .error status) :
    applyWrite documents request writeTime = (.error status, documents) := by
  unfold writeName at hn
  split at hn <;> cases hn
  rename_i ho
  simp [applyWrite, ho]

/-- What is left of a document by an accepted write, and its timestamps. -/
theorem writeDocument_ok {existing : Option Document} {request : Write} {writeTime : Timestamp}
    {result : WriteResult} {after : Option Document}
    (h : writeDocument existing request writeTime = .ok (result, after)) :
    ∃ name, writeName request = .ok name ∧ validateDocumentName name = .ok () ∧
      ∀ document, after = some document → document.name = name ∧
        document.updateTime = some writeTime ∧
        document.createTime = some ((existing.bind Document.createTime).getD writeTime) := by
  unfold writeDocument at h
  unfold writeName
  split at h
  · rename_i document ho
    simp only [bind, Except.bind, pure, Except.pure] at h
    split at h
    · cases h
    rename_i hv
    split at h
    · cases h
    split at h
    · cases h
    rename_i merged hm
    split at h
    · cases h
    obtain ⟨-, rfl⟩ := Prod.mk.inj (Except.ok.inj h)
    refine ⟨document.name, by simp only [ho], hv, ?_⟩
    rintro d ⟨⟩
    exact ⟨by simp [applyUpdateTransforms_name, mergeDocument_name hm], rfl, rfl⟩
  · rename_i name ho
    simp only [bind, Except.bind, pure, Except.pure] at h
    split at h
    · cases h
    rename_i hv
    split at h
    · cases h
    obtain ⟨-, rfl⟩ := Prod.mk.inj (Except.ok.inj h)
    exact ⟨name, by simp only [ho], hv, by simp⟩
  · cases h
  · cases h

/-- An accepted update leaves a document. -/
theorem writeDocument_update {existing : Option Document} {request : Write}
    {writeTime : Timestamp} {document : Document}
    (ho : request.operation = some (.update document)) {result : WriteResult}
    {after : Option Document}
    (h : writeDocument existing request writeTime = .ok (result, after)) :
    ∃ stored, after = some stored := by
  simp only [writeDocument, ho, bind, Except.bind, pure, Except.pure] at h
  split at h
  · cases h
  split at h
  · cases h
  split at h
  · cases h
  split at h
  · cases h
  exact ⟨_, (Prod.mk.inj (Except.ok.inj h)).2.symm⟩

/-- An accepted delete leaves none. -/
theorem writeDocument_delete {existing : Option Document} {request : Write}
    {writeTime : Timestamp} {name : String} (ho : request.operation = some (.delete name))
    {result : WriteResult} {after : Option Document}
    (h : writeDocument existing request writeTime = .ok (result, after)) : after = none := by
  simp only [writeDocument, ho, bind, Except.bind, pure, Except.pure] at h
  split at h
  · cases h
  split at h
  · cases h
  exact (Prod.mk.inj (Except.ok.inj h)).2.symm

end FirebaseEmu.Firestore
