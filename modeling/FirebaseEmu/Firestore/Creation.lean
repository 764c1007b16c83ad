import FirebaseEmu.Firestore.Pages

namespace FirebaseEmu.Firestore
open Lib Std

variable {β : Type} (codec : DocumentCodec β)

/-- The unfiltered query on one collection, without its descendants. -/
def collectionQuery (collectionId : String) : StructuredQuery :=
  ⟨none, [⟨collectionId, false⟩], none, [], none, 0, none, none⟩

/-- How many documents directly in the collection have a smaller name. -/
def earlierDocuments (documents : Documents) (parent collectionId name : String) : Nat :=
  documents.keys.countP fun other =>
    matchesCollection other parent collectionId false && decide (other < name)

/-- The name is the parent's, one segment for the collection and one for the document, and
a query on the collection finds the document. -/
structure FoundInCollection (service : FirestoreService β) (parent collectionId : String)
    (document : Document) : Prop where
  segments : ∃ documentId, split '/' document.name =
    split '/' (trimEnd '/' parent) ++ [collectionId, documentId]
  found : ∃ docs, queryDocs codec service parent (collectionQuery collectionId) = .ok docs ∧
    document ∈ docs

theorem Named.scanned_consistent {documents : Documents} (h : Named documents) :
    Consistent (documents.toList.map Prod.snd) :=
  consistent_of_stored fun _ hd => h.mem_scanned.mp hd

/-- The one order of a query without orders or inequalities. -/
abbrev nameOrder : List OrderField := [("__name__", false)]

theorem compareDocuments_name {a b : Document} :
    compareDocuments nameOrder a b = .lt ↔ a.name < b.name := by
  have hc : compareDocuments nameOrder a b = compare a.name b.name := by
    rw [compareDocuments_cons, compareDocuments_nil, orderValue_name, orderValue_name,
      Ordering.then_eq]
    rfl
  rw [hc, compare_lt_iff_lt]

theorem sorted_by_name {docs : List Document} (hc : Consistent docs) (hn : docs.Nodup) :
    (sortedDocuments nameOrder docs).Pairwise fun a b => a.name < b.name := by
  have hd : Distinguishes nameOrder docs := hc.distinguishes [] none
  exact (hd.sorted_strict hn).imp compareDocuments_name.mp

theorem sorted_perm_name (docs : List Document) :
    (sortedDocuments nameOrder docs).Perm docs := by
  refine (List.perm_insertionSort _ _).trans (List.Perm.of_eq ?_)
  exact List.filter_eq_self.mpr fun _ _ => rfl

theorem queryDocs_collection {service : FirestoreService β} (hm : service.persistence = none)
    {parent collectionId database : String} (hc : collectionId ≠ "")
    (hdb : databaseFromResource parent = .ok database) :
    queryDocs codec service parent (collectionQuery collectionId) =
      .ok ((sortedDocuments nameOrder ((service.store.documents.toList.map Prod.snd).filter
        fun d => matchesCollection d.name parent collectionId false)).take (2 ^ 31 - 1)) := by
  have hs : querySelector (collectionQuery collectionId) = .ok ⟨collectionId, false⟩ := by
    simp [querySelector, collectionQuery, hc]
  have hmatch : matchingDocuments parent ⟨collectionId, false⟩ none
      (service.store.documents.toList.map Prod.snd) =
      .ok ((service.store.documents.toList.map Prod.snd).filter
        fun d => matchesCollection d.name parent collectionId false) := by
    rw [matchingDocuments_ok]
    constructor
    · intro d _
      simp only [keepsDocument]
      split <;> rfl
    · apply List.filter_congr
      intro d _
      simp only [keepsDocument]
      split
      · rename_i h
        rw [h]
        rfl
      · rename_i h
        rw [Bool.not_eq_true] at h
        rw [h]
        rfl
  have hexplicit : explicitOrders (collectionQuery collectionId).orderBy = .ok [] := rfl
  rw [queryDocs_eq, hs, hdb]
  simp only [scannedDocuments, hm, Except.bind]
  refine (evaluateQuery_eq hmatch hexplicit (applyCursor_none _ _ _)
    (applyCursor_none _ _ _)).trans ?_
  rw [mapM_eq_allOk, allOk_eq_ok]
  rfl

/-- A stored document of the collection is found when fewer than the page come before it. -/
theorem mem_take_sorted {documents : Documents} (hn : Named documents)
    {parent collectionId : String} {d : Document} (hd : documents[d.name]? = some d)
    (hmatch : matchesCollection d.name parent collectionId false = true) (n : Nat) :
    d ∈ (sortedDocuments nameOrder ((documents.toList.map Prod.snd).filter
        fun d => matchesCollection d.name parent collectionId false)).take n ↔
      earlierDocuments documents parent collectionId d.name < n := by
  have hscan : (documents.toList.map Prod.snd).Nodup := List.Nodup.of_map _ hn.nodup_scanned
  have hcons := hn.scanned_consistent
  generalize hdocs : documents.toList.map Prod.snd = docs at hscan hcons ⊢
  have hmem : d ∈ docs := hdocs ▸ hn.mem_scanned.mpr hd
  have hfilter : d ∈ docs.filter fun d => matchesCollection d.name parent collectionId false :=
    List.mem_filter.mpr ⟨hmem, hmatch⟩
  have hkept : Consistent
      (docs.filter fun d => matchesCollection d.name parent collectionId false) := fun a ha b hb =>
    hcons a (List.mem_filter.mp ha).1 b (List.mem_filter.mp hb).1
  have hsorted := sorted_by_name hkept (hscan.filter _)
  rw [mem_take_iff_countP hsorted ((sorted_perm_name _).mem_iff.mpr hfilter),
    (sorted_perm_name _).countP_eq, List.countP_filter, earlierDocuments, ← hn.scanned_names,
    hdocs, List.countP_map]
  have hcount : docs.countP (fun a => decide (a.name < d.name) &&
        matchesCollection a.name parent collectionId false) =
      docs.countP ((fun other => matchesCollection other parent collectionId false &&
        decide (other < d.name)) ∘ Document.name) :=
    List.countP_congr fun a _ => by simp [and_comm]
  rw [hcount]

/-- A new document does not come before itself. -/
theorem earlierDocuments_put {documents : Documents} (parent collectionId : String) {name : String}
    (hnew : documents.contains name = false) (document : Document) :
    earlierDocuments (put documents name (some document)) parent collectionId name =
      earlierDocuments documents parent collectionId name := by
  have hnot : name ∉ documents.keys := by
    rw [ExtTreeMap.mem_keys, ← ExtTreeMap.contains_iff_mem, hnew]
    simp
  have hperm : (put documents name (some document)).keys.Perm (name :: documents.keys) := by
    apply keys_perm (List.nodup_cons.mpr ⟨hnot, ExtTreeMap.nodup_keys⟩)
    intro k
    rw [mem_iff_exists, getElem?_put, List.mem_cons, ExtTreeMap.mem_keys, mem_iff_exists]
    by_cases hk : name = k
    · simp [hk]
    · simp [hk, Ne.symm hk]
  rw [earlierDocuments, hperm.countP_eq, List.countP_cons_of_neg (by simp)]
  rfl

theorem autoDocumentId_segment (n : Nat) : '/' ∉ (autoDocumentId n).toList := by
  intro hm
  simp only [autoDocumentId, String.toList_append, String.toList_ofList, List.mem_append,
    List.mem_replicate] at hm
  rcases hm with hm | ⟨-, hm⟩ | hm
  · revert hm
    decide
  · cases hm
  · have hdigit := Nat.isDigit_of_mem_toDigits (by decide) (by decide) hm
    revert hdigit
    decide

theorem takeDocumentId_segment (store : Store) (requested : String) :
    '/' ∉ (store.takeDocumentId requested).1.toList ↔ '/' ∉ requested.toList := by
  unfold Store.takeDocumentId
  split
  · rename_i h
    simp [h, autoDocumentId_segment]
  · rfl

theorem split_createdName (request : CreateDocumentRequest) (documentId : String) :
    split '/' (createdName request documentId) = split '/' (trimEnd '/' request.parent) ++
      (split '/' request.collectionId ++ split '/' documentId) := by
  have hname : createdName request documentId = trimEnd '/' request.parent ++
      String.singleton '/' ++ (request.collectionId ++ String.singleton '/' ++ documentId) := by
    simp only [createdName, String.append_assoc]
    rfl
  rw [hname, split_append, split_append]

/-- The two identifiers are the last two segments exactly when neither has a separator. -/
theorem createdName_segments (request : CreateDocumentRequest) (documentId : String) :
    (∃ last, split '/' (createdName request documentId) =
      split '/' (trimEnd '/' request.parent) ++ [request.collectionId, last]) ↔
      '/' ∉ request.collectionId.toList ∧ '/' ∉ documentId.toList := by
  rw [split_createdName]
  constructor
  · rintro ⟨last, h⟩
    have hlen := congrArg List.length (List.append_cancel_left h)
    have hc := List.length_pos_of_ne_nil (split_ne_nil '/' request.collectionId)
    have hd := List.length_pos_of_ne_nil (split_ne_nil '/' documentId)
    simp only [List.length_append, List.length_cons, List.length_nil] at hlen
    exact ⟨not_mem_of_length_split '/' (by omega), not_mem_of_length_split '/' (by omega)⟩
  · rintro ⟨hc, hd⟩
    exact ⟨documentId, by rw [split_of_not_mem '/' hc, split_of_not_mem '/' hd]; rfl⟩

/-- A name with one segment more for each identifier is directly in the collection. -/
theorem createdName_matches {request : CreateDocumentRequest} {documentId : String}
    (hc : '/' ∉ request.collectionId.toList) (hd : '/' ∉ documentId.toList) :
    matchesCollection (createdName request documentId) request.parent request.collectionId false =
      true := by
  have hname : createdName request documentId = trimEnd '/' request.parent ++
      ("/" ++ (request.collectionId ++ String.singleton '/' ++ documentId)) := by
    simp only [createdName, String.append_assoc]
    rfl
  have hs : split '/' (request.collectionId ++ String.singleton '/' ++ documentId) =
      [request.collectionId, documentId] := by
    rw [split_append, split_of_not_mem '/' hc, split_of_not_mem '/' hd]
    rfl
  simp only [matchesCollection, hname, stripPrefix_append, Option.bind_some, hs]
  simp

/-- The parent of an accepted name has the name's database. -/
theorem parent_database {request : CreateDocumentRequest} {documentId : String}
    (hv : validateDocumentName (createdName request documentId) = .ok ())
    (hc : '/' ∉ request.collectionId.toList) (hd : '/' ∉ documentId.toList) :
    ∃ database, databaseFromResource request.parent = .ok database := by
  obtain ⟨n⟩ := documentName_of_valid hv
  obtain ⟨more, hmore⟩ := split_trimEnd '/' request.parent
  have hs := n.parts
  rw [split_createdName, split_of_not_mem '/' hc, split_of_not_mem '/' hd] at hs
  have hlen := congrArg List.length hs
  have htwo := n.two_le
  simp only [List.length_append, List.length_cons, List.length_nil] at hlen
  have htake : (split '/' request.parent).take 4 =
      ["projects", n.project, "databases", n.id] := by
    have h4 := congrArg (List.take 4) hs
    rw [List.take_append_of_le_length (by omega)] at h4
    rw [hmore, List.take_append_of_le_length (by omega), h4]
    rfl
  exact ⟨_, databaseFromResource_of_take n.project_ne n.id_ne htake⟩

theorem createCheck_collectionId {request : CreateDocumentRequest} {documentId : String}
    {contains : String → Bool} {created : Document × String}
    (h : createCheck request documentId contains = .ok created) : request.collectionId ≠ "" := by
  unfold createCheck at h
  split at h
  · cases h
  split at h
  · cases h
  · rename_i hempty
    exact fun he => hempty (.inr he)

/-- A created document stands and is found in its collection exactly when neither
identifier contains a separator and the answer reaches to its name. -/
theorem created_document_found {service : FirestoreService β} (hm : service.persistence = none)
    {request : CreateDocumentRequest} {now : Timestamp} {document : Document}
    {service' : FirestoreService β}
    (h : createDocument codec service request now = (.ok document, service')) :
    FoundInCollection codec service' request.parent request.collectionId document ↔
      ('/' ∉ request.collectionId.toList ∧ '/' ∉ request.documentId.toList) ∧
        earlierDocuments service.store.documents request.parent request.collectionId
          (createdName request (service.store.takeDocumentId request.documentId).1) <
            2 ^ 31 - 1 := by
  rcases createDocument_memory codec service hm request now with
    ⟨status, service₁, he, -, -⟩ | ⟨source, name, service₁, he, hchecked, heffect⟩
  · rw [he] at h
    cases h
  rw [he] at h
  obtain ⟨hdocument, rfl⟩ := Prod.mk.inj h
  obtain rfl := Except.ok.inj hdocument
  obtain ⟨hv, hnew, rfl⟩ := createCheck_ok hchecked
  have hcollection := createCheck_collectionId hchecked
  rw [← takeDocumentId_segment service.store request.documentId]
  generalize (service.store.takeDocumentId request.documentId).1 = documentId at *
  have hsegments := createdName_segments request documentId
  -- with both identifiers one segment each, the query reaches the name or stops before it
  have hfound : '/' ∉ request.collectionId.toList → '/' ∉ documentId.toList →
      ((∃ docs, queryDocs codec service₁ request.parent (collectionQuery request.collectionId) =
        .ok docs ∧ createdDocument source (createdName request documentId) now ∈ docs) ↔
      earlierDocuments service.store.documents request.parent request.collectionId
        (createdName request documentId) < 2 ^ 31 - 1) := by
    intro hc hd
    obtain ⟨database, hdb⟩ := parent_database hv hc hd
    have hstored : service₁.store.documents[createdName request documentId]? =
        some (createdDocument source (createdName request documentId) now) := by
      rw [heffect.documents, getElem?_put, if_pos rfl]
    have htake := mem_take_sorted service₁.store.named
      (d := createdDocument source (createdName request documentId) now) hstored
      (createdName_matches hc hd) (2 ^ 31 - 1)
    rw [queryDocs_collection codec heffect.persistence hcollection hdb]
    simp only [Except.ok.injEq, exists_eq_left']
    rw [htake, heffect.documents]
    exact iff_of_eq (congrArg (· < 2 ^ 31 - 1)
      (earlierDocuments_put request.parent request.collectionId hnew _))
  constructor
  · rintro ⟨hsplit, hquery⟩
    obtain ⟨hc, hd⟩ := hsegments.mp hsplit
    exact ⟨⟨hc, hd⟩, (hfound hc hd).mp hquery⟩
  · rintro ⟨⟨hc, hd⟩, hcount⟩
    exact ⟨hsegments.mpr ⟨hc, hd⟩, (hfound hc hd).mpr hcount⟩

/-- A create request for the items of the sample database. -/
def createItem (documentId : String) : CreateDocumentRequest :=
  ⟨sampleDatabase ++ "/documents/", "items", documentId, some ⟨"", [], none, none⟩⟩

theorem created_item_found : ∃ document service',
    createDocument plainCodec sampleMemory (createItem "a") (sampleTime 1) =
      (.ok document, service') ∧
    FoundInCollection plainCodec service' (sampleDatabase ++ "/documents/") "items" document := by
  have hcreated : createDocument plainCodec sampleMemory (createItem "a") (sampleTime 1) =
    (.ok _, _) := rfl
  refine ⟨_, _, hcreated, (created_document_found plainCodec rfl hcreated).mpr ⟨?_, ?_⟩⟩
  · exact ⟨by decide, by decide⟩
  · have hnone : sampleMemory.store.documents.keys = [] := rfl
    rw [earlierDocuments, hnone]
    decide

/-- A document identifier with separators reaches below the collection. -/
theorem created_item_below : ∃ document service',
    createDocument plainCodec sampleMemory (createItem "a/parts/b") (sampleTime 1) =
      (.ok document, service') ∧
    ¬ FoundInCollection plainCodec service' (sampleDatabase ++ "/documents/") "items" document := by
  have hcreated : createDocument plainCodec sampleMemory (createItem "a/parts/b") (sampleTime 1) =
    (.ok _, _) := rfl
  refine ⟨_, _, hcreated, ?_⟩
  rintro ⟨⟨last, h⟩, -⟩
  have hname : (split '/' (createdName (createItem "a/parts/b") "a/parts/b")).length = 9 := by
    decide
  have hparent : (split '/' (trimEnd '/' (sampleDatabase ++ "/documents/"))).length = 5 := by
    decide
  have hlen := congrArg List.length h
  rw [List.length_append, hparent] at hlen
  exact absurd (hname.symm.trans hlen) (by simp)

end FirebaseEmu.Firestore
