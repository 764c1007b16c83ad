import FirebaseEmu.Firestore.Commits
import FirebaseEmu.Firestore.Masks
import FirebaseEmu.Ui.Typed

namespace FirebaseEmu.Ui
open Lib Std Firestore

structure FieldMutationRequest where
  project : String
  database : String
  documentPath : String
  action : String
  fieldName : String
  newFieldName : Option String
  value : Option Json
  expectedUpdateTime : Json

/-- The database and the name of the document, checked before anything is read. -/
def mutationTarget (request : FieldMutationRequest) : Except ApiError (String × String) :=
  if !validSegment request.project || !validSegment request.database ||
      !validDocumentSegment request.fieldName then
    .error (badRequest "invalid project, database, or field name")
  else
    match pathParts request.documentPath with
    | none => .error (badRequest "invalid document path")
    | some parts =>
      if parts.length % 2 ≠ 0 then .error (badRequest "path must identify a document")
      else
        let database := databaseName request.project request.database
        .ok (database, database ++ "/documents/" ++ request.documentPath)

section Change
variable (readers : TextReaders)

/-- The fields and the field paths of the write, given the document that was read. -/
def mutationChange (request : FieldMutationRequest) (current : Document) :
    Except ApiError (Fields × List String) :=
  match request.action with
  | "add" =>
    if (current.fields.lookup request.fieldName).isSome then .error ⟨409, "field already exists"⟩
    else
      match request.value with
      | none => .error (badRequest "field value is required")
      | some value =>
        match validateTypedValue value 0 with
        | .error message => .error (badRequest message)
        | .ok () =>
          match valueProto readers value with
          | .error status => .error (badRequest status.message)
          | .ok value => .ok ([(request.fieldName, value)], [quotedFieldPath request.fieldName])
  | "delete" =>
    if (current.fields.lookup request.fieldName).isNone then
      .error ⟨404, "field no longer exists"⟩
    else .ok ([], [quotedFieldPath request.fieldName])
  | "rename" =>
    match request.newFieldName with
    | none => .error (badRequest "new field name is required")
    | some destination =>
      if !validDocumentSegment destination || destination == request.fieldName then
        .error (badRequest "enter a different valid field name")
      else if (current.fields.lookup destination).isSome then
        .error ⟨409, "destination field already exists"⟩
      else
        match current.fields.lookup request.fieldName with
        | none => .error ⟨404, "field no longer exists"⟩
        | some value => .ok ([(destination, value)],
            [quotedFieldPath request.fieldName, quotedFieldPath destination])
  | _ => .error (badRequest "invalid field action")

/-- The write made of the change, if the document still is the version that was read. -/
def mutationWrite (name : String) (change : Fields × List String) (current : Document) : Write :=
  ⟨some (.update ⟨name, change.1, none, none⟩), some ⟨change.2⟩,
    some ⟨some (match current.updateTime with
      | some time => .updateTime time
      | none => .existence true)⟩, []⟩

end Change

section Mutation
variable {β : Type} (codec : DocumentCodec β) (readers : TextReaders) (formats : TextFormats)

def currentDocument (service : FirestoreService β) (database name : String) :
    Except ApiError Document :=
  match databaseDocuments codec service database with
  | .error status => .error ⟨502, status.message⟩
  | .ok documents =>
    match documents.find? fun document => document.name == name with
    | none => .error ⟨404, "document no longer exists"⟩
    | some current => .ok current

/-- Everything up to the commit, on the documents as they are read. -/
def mutationCommit (service : FirestoreService β) (request : FieldMutationRequest) :
    Except ApiError CommitRequest := do
  let (database, name) ← mutationTarget request
  let current ← currentDocument codec service database name
  if !((documentJson formats current).get "updateTime").eq request.expectedUpdateTime then
    throw ⟨409, "document changed; refresh and try again"⟩
  let change ← mutationChange readers request current
  pure ⟨database, [mutationWrite name change current], []⟩

/-- `others` are the calls that other clients make between the reading and the commit. -/
def mutateField (service : FirestoreService β) (request : FieldMutationRequest)
    (others : List Call) (now : Timestamp) : Except ApiError Unit × FirestoreService β :=
  let between := run codec service others
  match mutationCommit codec readers formats service request with
  | .error error => (.error error, between)
  | .ok commitRequest =>
    match commit codec between commitRequest now with
    | (.ok _, after) => (.ok (), after)
    | (.error status, after) =>
      if status.code = .failedPrecondition then
        (.error ⟨409, "document changed; refresh and try again"⟩, after)
      else (.error (badRequest status.message), after)

end Mutation

/-- The fields after an edit are those before it with exactly the change of the request. -/
inductive Edited (readers : TextReaders) (request : FieldMutationRequest) (before after : Fields) :
    Prop
  | add {json : Json} {value : Value} (ha : request.action = "add")
    (hj : request.value = some json) (hv : valueProto readers json = .ok value)
    (hnew : before.lookup request.fieldName = none)
    (h : ∀ key, after.lookup key =
      if key = request.fieldName then some value else before.lookup key)
  | delete {value : Value} (ha : request.action = "delete")
    (hold : before.lookup request.fieldName = some value)
    (h : ∀ key, after.lookup key = if key = request.fieldName then none else before.lookup key)
  | rename {destination : String} {value : Value} (ha : request.action = "rename")
    (hd : request.newFieldName = some destination) (hne : destination ≠ request.fieldName)
    (hold : before.lookup request.fieldName = some value)
    (hnew : before.lookup destination = none)
    (h : ∀ key, after.lookup key =
      if key = destination then some value
      else if key = request.fieldName then none else before.lookup key)

theorem mutationTarget_ok {request : FieldMutationRequest} {database name : String}
    (h : mutationTarget request = .ok (database, name)) :
    databaseDocumentPrefix database = .ok (database ++ "/documents/") ∧
      request.fieldName ≠ "" := by
  unfold mutationTarget at h
  split at h
  · cases h
  · rename_i hvalid
    simp only [Bool.or_eq_true, Bool.not_eq_true', not_or, Bool.not_eq_false] at hvalid
    split at h
    · cases h
    · split at h
      · cases h
      · obtain ⟨rfl, -⟩ := Prod.mk.inj (Except.ok.inj h)
        exact ⟨startsWith_databaseName hvalid.1.1 hvalid.1.2, validDocumentSegment_ne hvalid.2⟩

theorem lookup_maskedFields_one (source fields : Fields) (part key : String) :
    (maskedFields source [[part]] fields).lookup key =
      if key = part then source.lookup part else fields.lookup key :=
  lookup_nestedSet fields part [] (source.lookup part) key

theorem lookup_maskedFields_two (source fields : Fields) (part other key : String) :
    (maskedFields source [[part], [other]] fields).lookup key =
      if key = other then source.lookup other
      else if key = part then source.lookup part else fields.lookup key := by
  refine (lookup_nestedSet _ other [] (source.lookup other) key).trans ?_
  split
  · rfl
  · exact lookup_nestedSet fields part [] (source.lookup part) key

/-- A mask of quoted names sets the entries of those names. -/
theorem mergeDocument_quoted (names : List String) (hne : ∀ name ∈ names, name ≠ "")
    {existing : Option Document} {incoming merged : Document}
    (h : mergeDocument existing incoming (some ⟨names.map quotedFieldPath⟩) = .ok merged) :
    merged.fields =
      maskedFields incoming.fields (names.map fun name => [name]) (existingFields existing) := by
  have hpaths : allOk ((names.map quotedFieldPath).map fieldPath) =
      .ok (names.map fun name => [name]) := by
    rw [allOk_eq_ok, List.map_map, List.map_map]
    apply List.map_congr_left
    intro name hname
    rw [Function.comp_apply, fieldPath_quoted (hne name hname), Function.comp_apply]
  rw [mergeDocument_masked, hpaths] at h
  simp only [Except.bind] at h
  split at h
  · cases h
  · rw [← Except.ok.inj h]

/-- Merged into the document that was read, the change edits its fields as requested. -/
theorem edited_of_merge {readers : TextReaders} {request : FieldMutationRequest}
    {current merged : Document} {change : Fields × List String} {name : String}
    (hname : request.fieldName ≠ "")
    (h : mutationChange readers request current = .ok change)
    (hm : mergeDocument (some current) ⟨name, change.1, none, none⟩ (some ⟨change.2⟩) =
      .ok merged) : Edited readers request current.fields merged.fields := by
  unfold mutationChange at h
  split at h
  · rename_i ha
    split at h
    · cases h
    · rename_i hnew
      split at h
      · cases h
      · rename_i json hj
        split at h
        · cases h
        · split at h
          · cases h
          · rename_i value hv
            obtain rfl := Except.ok.inj h
            have hfields := mergeDocument_quoted [request.fieldName]
              (by simpa using hname) hm
            refine .add ha hj hv (Option.not_isSome_iff_eq_none.mp hnew) fun key => ?_
            rw [hfields]
            refine (lookup_maskedFields_one _ _ _ _).trans ?_
            simp [existingFields]
  · rename_i ha
    split at h
    · cases h
    · rename_i hold
      obtain rfl := Except.ok.inj h
      obtain ⟨value, hvalue⟩ :=
        Option.ne_none_iff_exists'.mp fun hnone => hold (Option.isNone_iff_eq_none.mpr hnone)
      have hfields := mergeDocument_quoted [request.fieldName]
        (by simpa using hname) hm
      refine .delete ha hvalue fun key => ?_
      rw [hfields]
      refine (lookup_maskedFields_one _ _ _ _).trans ?_
      simp [existingFields]
  · rename_i ha
    split at h
    · cases h
    · rename_i destination hd
      split at h
      · cases h
      · rename_i hvalid
        simp only [Bool.or_eq_true, Bool.not_eq_true', beq_iff_eq, not_or,
          Bool.not_eq_false] at hvalid
        split at h
        · cases h
        · rename_i hnew
          split at h
          · cases h
          · rename_i value hold
            obtain rfl := Except.ok.inj h
            have hfields := mergeDocument_quoted [request.fieldName, destination]
              (by simpa using ⟨hname, validDocumentSegment_ne hvalid.1⟩) hm
            refine .rename ha hd hvalid.2 hold (Option.not_isSome_iff_eq_none.mp hnew) fun key => ?_
            rw [hfields]
            refine (lookup_maskedFields_two _ _ _ _ _).trans ?_
            simp [existingFields, List.lookup_cons, beq_false_of_ne (Ne.symm hvalid.2)]
  · cases h

section Exact
variable {β : Type} {codec : DocumentCodec β}

theorem currentDocument_ok {service : FirestoreService β} {database name : String}
    (ht : Tabled codec service)
    (hpre : databaseDocumentPrefix database = .ok (database ++ "/documents/"))
    {current : Document} (h : currentDocument codec service database name = .ok current) :
    documentNow codec service name = some current := by
  obtain ⟨docs, hdocs, -, hstored, -⟩ := ht.databaseDocuments_spec hpre
  rw [currentDocument, hdocs] at h
  dsimp only at h
  split at h
  · cases h
  · rename_i found hfound
    obtain rfl := Except.ok.inj h
    have hname : found.name = name := by simpa using List.find?_some hfound
    rw [← hname]
    exact hstored found (List.mem_of_find?_eq_some hfound)

theorem mutationCommit_ok {readers : TextReaders} {formats : TextFormats}
    {service : FirestoreService β} {request : FieldMutationRequest} {commitRequest : CommitRequest}
    (ht : Tabled codec service)
    (h : mutationCommit codec readers formats service request = .ok commitRequest) :
    ∃ name current change, documentNow codec service name = some current ∧
      request.fieldName ≠ "" ∧ mutationChange readers request current = .ok change ∧
      mutationTarget request = .ok (commitRequest.database, name) ∧
      commitRequest.writes = [mutationWrite name change current] := by
  unfold mutationCommit at h
  obtain ⟨⟨database, name⟩, htarget, h⟩ := exceptBind_eq_ok.mp h
  obtain ⟨current, hcurrent, h⟩ := exceptBind_eq_ok.mp h
  obtain ⟨hpre, hname⟩ := mutationTarget_ok htarget
  split at h
  · cases h
  · obtain ⟨change, hchange, h⟩ := exceptBind_eq_ok.mp h
    obtain rfl := Except.ok.inj h
    exact ⟨name, current, change, currentDocument_ok ht hpre hcurrent, hname, hchange, htarget, rfl⟩

/-- An accepted write finds the document as it was read. -/
theorem mutationWrite_unchanged {service : FirestoreService β} {others : List Call}
    (hs : Stamped codec service) (hu : Unreused codec service others) {name : String}
    {current : Document} (hcurrent : documentNow codec service name = some current)
    (change : Fields × List String) (hcondition : checkPrecondition
      (documentNow codec (run codec service others) name)
      (mutationWrite name change current).currentDocument = .ok ()) :
    documentNow codec (run codec service others) name = some current := by
  obtain ⟨time, htime⟩ := hs name current hcurrent
  simp only [mutationWrite, htime, checkPrecondition, Option.bind_some] at hcondition
  split at hcondition
  · rename_i hexpected
    obtain ⟨later, hlater, hupdate⟩ := Option.bind_eq_some_iff.mp hexpected
    rw [hlater, hu.documentNow_eq hcurrent hlater (hupdate.trans htime.symm)]
  · cases hcondition

/-- A field edit changes what it says in the version that was read, or nothing. -/
theorem mutateField_exact (readers : TextReaders) (formats : TextFormats)
    {service : FirestoreService β} (ht : Tabled codec service) (hs : Stamped codec service)
    {others : List Call} (hu : Unreused codec service others) (request : FieldMutationRequest)
    (now : Timestamp) :
    let outcome := mutateField codec readers formats service request others now
    (∀ error, outcome.1 = .error error → outcome.2 = run codec service others) ∧
    (outcome.1 = .ok () → ∃ database name before after,
      mutationTarget request = .ok (database, name) ∧
      documentNow codec service name = some before ∧
      documentNow codec (run codec service others) name = some before ∧
      documentNow codec outcome.2 name = some after ∧
      Edited readers request before.fields after.fields ∧
      ∀ other, other ≠ name →
        documentNow codec outcome.2 other = documentNow codec (run codec service others) other) := by
  intro outcome
  cases hc : mutationCommit codec readers formats service request with
  | error error =>
    have ho : outcome = (.error error, run codec service others) := by
      simp [outcome, mutateField, hc]
    rw [ho]
    exact ⟨fun _ _ => rfl, fun h => by cases h⟩
  | ok commitRequest =>
    rcases commit_cases codec (run codec service others) commitRequest now with
      ⟨status, hcommit⟩ | ⟨response, after, hcommit, committed⟩
    · have ho : outcome.2 = run codec service others ∧ outcome.1 ≠ .ok () := by
        simp only [outcome, mutateField, hc, hcommit]
        split <;> simp
      exact ⟨fun _ _ => ho.1, fun h => absurd h ho.2⟩
    · have ho : outcome = (.ok (), after) := by
        simp [outcome, mutateField, hc, hcommit]
      obtain ⟨name, current, change, hcurrent, hname, hchange, htarget, hwrites⟩ :=
        mutationCommit_ok ht hc
      obtain ⟨result, hwrite⟩ := committed.written [] (mutationWrite name change current) [] name
        hwrites rfl (by simp) (by simp)
      obtain ⟨hcondition, merged, stored, hmerged, hafter, hfields⟩ := writeDocument_plain hwrite
      have hbetween := mutationWrite_unchanged hs hu hcurrent change hcondition
      rw [ho]
      refine ⟨fun _ h => (by cases h), fun _ => ?_⟩
      refine ⟨commitRequest.database, name, current, stored, htarget, hcurrent, hbetween,
        hafter, ?_, ?_⟩
      · rw [hbetween] at hmerged
        rw [hfields]
        exact edited_of_merge hname hchange hmerged
      · intro other hother
        apply committed.others
        rw [hwrites]
        intro write hmem heq
        rw [List.mem_singleton.mp hmem] at heq
        exact hother (Except.ok.inj heq).symm

end Exact

/-- A service that holds one document with one field. -/
def sampleConsole : FirestoreService Document :=
  run plainCodec sampleMemory [sampleCommit "a" [("n", .integerValue 1)]]

def sampleRename : FieldMutationRequest where
  project := "p"
  database := "d"
  documentPath := "items/a"
  action := "rename"
  fieldName := "n"
  newFieldName := some "m.\x60"
  value := none
  expectedUpdateTime := timeJson jsonFormats (some (sampleTime 1))

/-- A commit of another document. -/
def sampleOther : Call :=
  ⟨.commit ⟨sampleDatabase, [sampleSet (sampleName sampleDatabase "b") []], []⟩, sampleTime 2, []⟩

theorem sampleMemory_none (name : String) : documentNow plainCodec sampleMemory name = none := by
  rw [documentNow_memory plainCodec rfl]
  simp [sampleMemory, Store.empty]

theorem mutateField_exact_sample : ∃ database name before after,
    mutationTarget sampleRename = .ok (database, name) ∧
    documentNow plainCodec sampleConsole name = some before ∧
    documentNow plainCodec (mutateField plainCodec jsonReaders jsonFormats sampleConsole
      sampleRename [sampleOther] (sampleTime 3)).2 name = some after ∧
    Edited jsonReaders sampleRename before.fields after.fields := by
  have htabled : Tabled plainCodec sampleConsole :=
    (tabled_memory plainCodec rfl : Tabled plainCodec sampleMemory).run _
  have hstamped : Stamped plainCodec sampleConsole := (stamped_empty sampleMemory_none).run _
  have hunreused : Unreused plainCodec sampleConsole [sampleOther] := by
    intro name document hd call hcall htime
    rw [List.mem_singleton.mp hcall] at htime
    rcases run_version hd with hnone | ⟨call', hcall', htime'⟩
    · rw [sampleMemory_none] at hnone
      cases hnone
    · rw [List.mem_singleton.mp hcall'] at htime'
      exact absurd (Option.some.inj (htime.symm.trans htime')) (by decide)
  obtain ⟨database, name, before, after, htarget, hbefore, -, hafter, hedited, -⟩ :=
    (mutateField_exact jsonReaders jsonFormats htabled hstamped hunreused sampleRename
      (sampleTime 3)).2 (by decide)
  exact ⟨database, name, before, after, htarget, hbefore, hafter, hedited⟩

end FirebaseEmu.Ui
