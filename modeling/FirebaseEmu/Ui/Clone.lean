import FirebaseEmu.Ui.FieldMutation

namespace FirebaseEmu.Ui
open Lib Std Firestore

structure CloneRequest where
  project : String
  database : String
  sourcePath : String
  destinationCollectionPath : String
  destinationId : String
  includeSubcollections : Bool

structure CloneResponse where
  destinationPath : String
  documentsCloned : Nat
  subcollectionsIncluded : Bool
  deriving DecidableEq

/-- The database, and the names of the source and the destination. -/
structure CloneTarget where
  database : String
  source : String
  destination : String

def cloneTarget (request : CloneRequest) : Except ApiError CloneTarget :=
  if !validSegment request.project || !validSegment request.database ||
      !validDocumentSegment request.destinationId then
    .error (badRequest "invalid project, database, or destination document ID")
  else
    match pathParts request.sourcePath with
    | none => .error (badRequest "invalid source document path")
    | some sourceParts =>
      match pathParts request.destinationCollectionPath with
      | none => .error (badRequest "invalid destination collection path")
      | some collectionParts =>
        if sourceParts.length % 2 ≠ 0 ∨ collectionParts.length % 2 ≠ 1 then
          .error (badRequest
            "source must be a document path and destination must be a collection path")
        else
          let database := databaseName request.project request.database
          let pre := database ++ "/documents/"
          .ok ⟨database, pre ++ request.sourcePath,
            pre ++ request.destinationCollectionPath ++ "/" ++ request.destinationId⟩

/-- The source document and, where they are asked for, the documents below it. -/
def isCloned (request : CloneRequest) (source : String) (document : Document) : Bool :=
  document.name == source ||
    request.includeSubcollections && startsWith document.name (source ++ "/")

def cloneWrite (source destination : String) (document : Document) : Write :=
  ⟨some (.update ⟨destination ++ (stripPrefix document.name source).getD "", document.fields,
    none, none⟩), none, some ⟨some (.existence false)⟩, []⟩

section Clone
variable {β : Type} (codec : DocumentCodec β)

/-- Everything up to the commit, on the documents as they are read. -/
def cloneCommit (service : FirestoreService β) (request : CloneRequest) :
    Except ApiError CommitRequest := do
  let target ← cloneTarget request
  match databaseDocuments codec service target.database with
  | .error status => throw ⟨502, status.message⟩
  | .ok documents =>
    let sourceDocuments := (documents.filter (isCloned request target.source)).mergeSort
      fun a b => decide (a.name ≤ b.name)
    if !sourceDocuments.any fun document => document.name == target.source then
      throw ⟨404, "source document not found"⟩
    pure ⟨target.database, sourceDocuments.map (cloneWrite target.source target.destination), []⟩

/-- `others` are the calls that other clients make between the reading and the commit. -/
def cloneDocument (service : FirestoreService β) (request : CloneRequest) (others : List Call)
    (now : Timestamp) : Except ApiError CloneResponse × FirestoreService β :=
  let between := run codec service others
  match cloneCommit codec service request with
  | .error error => (.error error, between)
  | .ok commitRequest =>
    match commit codec between commitRequest now with
    | (.ok _, after) => (.ok ⟨request.destinationCollectionPath ++ "/" ++ request.destinationId,
        commitRequest.writes.length, request.includeSubcollections⟩, after)
    | (.error status, after) =>
      if status.code = .failedPrecondition ∨ status.code = .alreadyExists then
        (.error ⟨409, "destination exists; cloning never overwrites documents"⟩, after)
      else (.error (badRequest status.message), after)

end Clone

/-- What is behind the name of the source in the names of the cloned documents. -/
def CloneSuffix (request : CloneRequest) (suffix : String) : Prop :=
  suffix = "" ∨ request.includeSubcollections = true ∧ startsWith suffix "/" = true

/-- A document is cloned exactly when its name is the source's with such a suffix. -/
theorem isCloned_iff (request : CloneRequest) (source : String) (document : Document) :
    isCloned request source document = true ↔
      ∃ suffix, CloneSuffix request suffix ∧ document.name = source ++ suffix := by
  simp only [isCloned, Bool.or_eq_true, Bool.and_eq_true, beq_iff_eq, CloneSuffix]
  constructor
  · rintro (hname | ⟨hinclude, hbelow⟩)
    · exact ⟨"", .inl rfl, by simpa using hname⟩
    · obtain ⟨rest, hrest⟩ := (startsWith_iff _ _).mp hbelow
      refine ⟨"/" ++ rest, .inr ⟨hinclude, (startsWith_iff _ _).mpr ⟨rest, rfl⟩⟩, ?_⟩
      rw [hrest, String.append_assoc]
  · rintro ⟨suffix, rfl | ⟨hinclude, hslash⟩, hname⟩
    · exact .inl (by simpa using hname)
    · obtain ⟨rest, rfl⟩ := (startsWith_iff _ _).mp hslash
      refine .inr ⟨hinclude, (startsWith_iff _ _).mpr ⟨rest, ?_⟩⟩
      rw [hname, String.append_assoc]

theorem cloneTarget_ok {request : CloneRequest} {target : CloneTarget}
    (h : cloneTarget request = .ok target) :
    databaseDocumentPrefix target.database = .ok (target.database ++ "/documents/") ∧
      startsWith target.source (target.database ++ "/documents/") = true := by
  unfold cloneTarget at h
  split at h
  · cases h
  · rename_i hvalid
    simp only [Bool.or_eq_true, Bool.not_eq_true', not_or, Bool.not_eq_false] at hvalid
    split at h
    · cases h
    · split at h
      · cases h
      · split at h
        · cases h
        · obtain rfl := Except.ok.inj h
          exact ⟨startsWith_databaseName hvalid.1.1 hvalid.1.2,
            (startsWith_iff _ _).mpr ⟨request.sourcePath, rfl⟩⟩

/-- The documents that are read for a clone: each of them once, and no other. -/
structure Selected {β : Type} (codec : DocumentCodec β) (request : CloneRequest) (source : String)
    (service : FirestoreService β) (documents : List Document) : Prop where
  nodup : documents.Nodup
  named : ∀ document ∈ documents, ∃ suffix, CloneSuffix request suffix ∧
    document.name = source ++ suffix ∧ documentNow codec service (source ++ suffix) = some document
  all : ∀ suffix document, CloneSuffix request suffix →
    documentNow codec service (source ++ suffix) = some document →
    document ∈ documents ∧ document.name = source ++ suffix

/-- The documents of the source's tree stand under the destination as well. -/
structure Cloned {β : Type} (codec : DocumentCodec β) (request : CloneRequest)
    (target : CloneTarget) (service between after : FirestoreService β) (count : Nat) : Prop where
  source : (documentNow codec service target.source).isSome = true
  copied : ∀ suffix document, CloneSuffix request suffix →
    documentNow codec service (target.source ++ suffix) = some document →
    documentNow codec between (target.destination ++ suffix) = none ∧
      ∃ copy, documentNow codec after (target.destination ++ suffix) = some copy ∧
        copy.fields = document.fields
  counted : ∃ suffixes : List String, suffixes.Nodup ∧ suffixes.length = count ∧
    ∀ suffix, suffix ∈ suffixes ↔ CloneSuffix request suffix ∧
      (documentNow codec service (target.source ++ suffix)).isSome = true
  others : ∀ name, (∀ suffix, CloneSuffix request suffix →
      (documentNow codec service (target.source ++ suffix)).isSome = true →
      name ≠ target.destination ++ suffix) →
    documentNow codec after name = documentNow codec between name

section Exact
variable {β : Type} {codec : DocumentCodec β} {service : FirestoreService β}
  {request : CloneRequest}

theorem cloneCommit_ok (ht : Tabled codec service) {commitRequest : CommitRequest}
    (h : cloneCommit codec service request = .ok commitRequest) :
    ∃ target documents, cloneTarget request = .ok target ∧
      Selected codec request target.source service documents ∧
      (∃ document ∈ documents, document.name = target.source) ∧
      commitRequest.writes = documents.map (cloneWrite target.source target.destination) := by
  unfold cloneCommit at h
  obtain ⟨target, htarget, h⟩ := exceptBind_eq_ok.mp h
  obtain ⟨hpre, hsource⟩ := cloneTarget_ok htarget
  obtain ⟨docs, hdocs, hnodup, hstored, hall⟩ := ht.databaseDocuments_spec hpre
  rw [hdocs] at h
  dsimp only at h
  split at h
  · cases h
  · rename_i hany
    obtain rfl := Except.ok.inj h
    have hmem : ∀ document, document ∈ ((docs.filter (isCloned request target.source)).mergeSort
        fun a b => decide (a.name ≤ b.name)) ↔
          document ∈ docs ∧ isCloned request target.source document = true := by
      intro document
      rw [List.mem_mergeSort, List.mem_filter]
    refine ⟨target, _, htarget, ⟨?_, ?_, ?_⟩, ?_, rfl⟩
    · rw [(List.mergeSort_perm _ _).nodup_iff]
      exact (List.Nodup.of_map _ hnodup).filter _
    · intro document hd
      obtain ⟨hd, hcloned⟩ := (hmem document).mp hd
      obtain ⟨suffix, hsuffix, hname⟩ := (isCloned_iff _ _ _).mp hcloned
      exact ⟨suffix, hsuffix, hname, hname ▸ hstored document hd⟩
    · intro suffix document hsuffix hd
      have hbelow : startsWith (target.source ++ suffix) (target.database ++ "/documents/") =
          true := by
        obtain ⟨rest, hrest⟩ := (startsWith_iff _ _).mp hsource
        refine (startsWith_iff _ _).mpr ⟨rest ++ suffix, ?_⟩
        rw [hrest, String.append_assoc]
      obtain ⟨hm, hname⟩ := hall _ document hd hbelow
      exact ⟨(hmem document).mpr ⟨hm, (isCloned_iff _ _ _).mpr ⟨suffix, hsuffix, hname⟩⟩, hname⟩
    · simpa [and_assoc] using hany

theorem append_cancel {pre a b : String} (h : pre ++ a = pre ++ b) : a = b := by
  rw [← String.toList_inj, String.toList_append, String.toList_append] at h
  exact String.toList_inj.mp (List.append_cancel_left h)

theorem cloneWrite_name {source destination suffix : String} {document : Document}
    (hname : document.name = source ++ suffix) :
    writeName (cloneWrite source destination document) = .ok (destination ++ suffix) := by
  simp [writeName, cloneWrite, hname, stripPrefix_append]

namespace Selected
variable {source : String} {documents : List Document}

/-- No two clones have one name: the suffix of a name is that of its document. -/
theorem nodup_names (h : Selected codec request source service documents) (destination : String) :
    ((documents.map (cloneWrite source destination)).map writeName).Nodup := by
  rw [List.map_map]
  apply List.Nodup.map_on _ h.nodup
  intro d hd d' hd' heq
  obtain ⟨suffix, -, hname, hstored⟩ := h.named d hd
  obtain ⟨suffix', -, hname', hstored'⟩ := h.named d' hd'
  rw [Function.comp_apply, Function.comp_apply, cloneWrite_name hname, cloneWrite_name hname'] at heq
  rw [append_cancel (Except.ok.inj heq), hstored'] at hstored
  exact (Option.some.inj hstored).symm

/-- One suffix for each of the documents. -/
theorem suffixes (h : Selected codec request source service documents) :
    ∃ suffixes : List String, suffixes.Nodup ∧ suffixes.length = documents.length ∧
      ∀ suffix, suffix ∈ suffixes ↔ CloneSuffix request suffix ∧
        (documentNow codec service (source ++ suffix)).isSome = true := by
  have hsuffix : ∀ (document : Document) (suffix : String), document.name = source ++ suffix →
      (stripPrefix document.name source).getD "" = suffix := by
    intro document suffix hname
    rw [hname, stripPrefix_append]
    rfl
  refine ⟨documents.map fun document => (stripPrefix document.name source).getD "", ?_,
    List.length_map _, ?_⟩
  · apply List.Nodup.map_on _ h.nodup
    intro d hd d' hd' heq
    obtain ⟨suffix, -, hname, hstored⟩ := h.named d hd
    obtain ⟨suffix', -, hname', hstored'⟩ := h.named d' hd'
    rw [hsuffix d suffix hname, hsuffix d' suffix' hname'] at heq
    rw [heq, hstored'] at hstored
    exact (Option.some.inj hstored).symm
  · intro suffix
    rw [List.mem_map]
    constructor
    · rintro ⟨document, hd, rfl⟩
      obtain ⟨suffix, hs, hname, hstored⟩ := h.named document hd
      rw [hsuffix document suffix hname, hstored]
      exact ⟨hs, rfl⟩
    · rintro ⟨hs, hsome⟩
      obtain ⟨document, hstored⟩ := Option.isSome_iff_exists.mp hsome
      obtain ⟨hd, hname⟩ := h.all suffix document hs hstored
      exact ⟨document, hd, hsuffix document suffix hname⟩

end Selected

/-- An accepted commit of the clones of the selected documents. -/
theorem Selected.cloned {target : CloneTarget} {between after : FirestoreService β}
    {documents : List Document} {now : Timestamp}
    (h : Selected codec request target.source service documents)
    (hsource : ∃ document ∈ documents, document.name = target.source)
    (committed : Committed codec between after
      (documents.map (cloneWrite target.source target.destination)) now) :
    Cloned codec request target service between after documents.length := by
  constructor
  · obtain ⟨document, hd, hname⟩ := hsource
    obtain ⟨suffix, -, hsuffix, hstored⟩ := h.named document hd
    rw [← hsuffix, hname] at hstored
    rw [hstored]
    rfl
  · intro suffix document hs hstored
    obtain ⟨hd, hname⟩ := h.all suffix document hs hstored
    obtain ⟨result, hwrite⟩ := committed.of_mem (h.nodup_names target.destination)
      (List.mem_map_of_mem hd) (cloneWrite_name hname)
    obtain ⟨hcondition, merged, stored, hmerged, hafter, hfields⟩ := writeDocument_plain hwrite
    refine ⟨?_, stored, hafter, ?_⟩
    · simp only [checkPrecondition, Option.bind_some] at hcondition
      split at hcondition
      · rename_i hnone
        exact Option.isNone_iff_eq_none.mp (Option.isSome_eq_false_iff.mp hnone.symm)
      · cases hcondition
    · rw [hfields, ← Except.ok.inj hmerged]
  · exact h.suffixes
  · intro name hname
    apply committed.others
    intro write hwrite heq
    obtain ⟨document, hd, rfl⟩ := List.mem_map.mp hwrite
    obtain ⟨suffix, hs, hsuffix, hstored⟩ := h.named document hd
    rw [cloneWrite_name hsuffix] at heq
    exact hname suffix hs (by rw [hstored]; rfl) (Except.ok.inj heq).symm

/-- A clone copies the documents of the source's tree to new names, or changes nothing. -/
theorem cloneDocument_exact (ht : Tabled codec service) (request : CloneRequest)
    (others : List Call) (now : Timestamp) :
    let outcome := cloneDocument codec service request others now
    (∀ error, outcome.1 = .error error → outcome.2 = run codec service others) ∧
    ∀ response, outcome.1 = .ok response → ∃ target, cloneTarget request = .ok target ∧
      Cloned codec request target service (run codec service others) outcome.2
        response.documentsCloned := by
  intro outcome
  cases hc : cloneCommit codec service request with
  | error error =>
    have ho : outcome = (.error error, run codec service others) := by
      simp [outcome, cloneDocument, hc]
    rw [ho]
    exact ⟨fun _ _ => rfl, fun response h => by cases h⟩
  | ok commitRequest =>
    rcases commit_cases codec (run codec service others) commitRequest now with
      ⟨status, hcommit⟩ | ⟨response, after, hcommit, committed⟩
    · have ho : outcome.2 = run codec service others ∧ ∀ response, outcome.1 ≠ .ok response := by
        simp only [outcome, cloneDocument, hc, hcommit]
        split <;> simp
      exact ⟨fun _ _ => ho.1, fun response h => absurd h (ho.2 response)⟩
    · obtain ⟨target, documents, htarget, hselected, hsource, hwrites⟩ := cloneCommit_ok ht hc
      have hlength : commitRequest.writes.length = documents.length := by
        rw [hwrites, List.length_map]
      rw [hwrites] at committed
      have ho : outcome = (.ok ⟨request.destinationCollectionPath ++ "/" ++ request.destinationId,
          documents.length, request.includeSubcollections⟩, after) := by
        simp [outcome, cloneDocument, hc, hcommit, hlength]
      rw [ho]
      refine ⟨fun error h => (by cases h), fun response' h => ⟨target, htarget, ?_⟩⟩
      rw [← Except.ok.inj h]
      exact hselected.cloned hsource committed

end Exact

def sampleClone : CloneRequest where
  project := "p"
  database := "d"
  sourcePath := "items/a"
  destinationCollectionPath := "items/a/copies"
  destinationId := "b"
  includeSubcollections := true

theorem cloneDocument_exact_sample : ∃ target after,
    cloneTarget sampleClone = .ok target ∧
    Cloned plainCodec sampleClone target sampleConsole (run plainCodec sampleConsole [sampleOther])
      after 1 := by
  have htabled : Tabled plainCodec sampleConsole :=
    (tabled_memory plainCodec rfl : Tabled plainCodec sampleMemory).run _
  obtain ⟨target, htarget, hcloned⟩ :=
    (cloneDocument_exact htabled sampleClone [sampleOther] (sampleTime 3)).2
      ⟨"items/a/copies/b", 1, true⟩ (by decide +kernel)
  exact ⟨target, _, htarget, hcloned⟩

end FirebaseEmu.Ui
