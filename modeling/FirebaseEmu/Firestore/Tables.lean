import FirebaseEmu.Firestore.OutboxLog

namespace FirebaseEmu.Firestore
open Lib Std

variable {β : Type} (codec : DocumentCodec β)

/-- The service holds exactly these documents, in memory or in its table. -/
def Holds (service : FirestoreService β) (documents : Documents) : Prop :=
  match service.persistence with
  | some p => SameRows codec p.documents documents
  | none => service.store.documents = documents

/-- The documents the service holds stand under their own names. -/
def Tabled (service : FirestoreService β) : Prop :=
  ∃ documents, Named documents ∧ Holds codec service documents

section
variable {service : FirestoreService β} {p : Persistence β} {table : Documents}

theorem holds_memory (hm : service.persistence = none) :
    Holds codec service table ↔ service.store.documents = table := by
  simp only [Holds, hm]

theorem holds_sqlite (hp : service.persistence = some p) :
    Holds codec service table ↔ SameRows codec p.documents table := by
  simp only [Holds, hp]

theorem tabled_memory (hm : service.persistence = none) : Tabled codec service :=
  ⟨_, service.store.named, (holds_memory codec hm).mpr rfl⟩

/-- The in-memory backend stays in memory. -/
theorem handle_memory (hm : service.persistence = none) (call : Call) :
    (handle codec service call).2.persistence = none := by
  obtain ⟨request, now, uuid⟩ := call
  cases request with
  | createDocument request =>
    rcases createDocument_memory codec service hm request now with
      ⟨status, service', hs, -, h⟩ | ⟨document, name, service', hs, -, h⟩ <;>
    · simp only [handle, answer, hs]
      exact h.persistence
  | updateDocument request =>
    cases hd : request.document with
    | none =>
      simp only [handle, answer, updateDocument_none codec service hd]
      exact hm
    | some document =>
      rcases updateDocument_memory codec service hm hd now with
        ⟨status, hs, -⟩ | ⟨stored, service', hs, -, -, h⟩
      · simp only [handle, answer, hs]
        exact hm
      · simp only [handle, answer, hs]
        exact h.persistence
  | deleteDocument request =>
    rcases deleteDocument_memory codec service hm request now with
      ⟨status, hs, -⟩ | ⟨service', hs, -, h⟩
    · simp only [handle, answer, hs]
      exact hm
    · simp only [handle, answer, hs]
      exact h.persistence
  | commit request =>
    rcases commit_memory codec service hm request now with
      ⟨status, hs, -⟩ | ⟨results, service', hs, -, -, h⟩
    · simp only [handle, answer, hs]
      exact hm
    · simp only [handle, answer, hs]
      exact h.persistence
  | batchWrite request =>
    obtain ⟨service', hs, h⟩ := batchWrite_memory codec service hm request now
    simp only [handle, answer, hs]
    exact h.persistence
  | clearDatabase database =>
    simp only [handle, answer, clearDatabase, hm]
    split <;> exact hm
  | batchGetDocuments request =>
    obtain ⟨tokens, hh⟩ := handle_reads codec service ⟨.batchGetDocuments request, now, uuid⟩ trivial
    rw [hh]
    exact hm
  | beginTransaction database =>
    obtain ⟨tokens, hh⟩ := handle_reads codec service ⟨.beginTransaction database, now, uuid⟩ trivial
    rw [hh]
    exact hm
  | rollback request =>
    obtain ⟨tokens, hh⟩ := handle_reads codec service ⟨.rollback request, now, uuid⟩ trivial
    rw [hh]
    exact hm
  | runQuery request =>
    obtain ⟨tokens, hh⟩ := handle_reads codec service ⟨.runQuery request, now, uuid⟩ trivial
    rw [hh]
    exact hm

variable {codec}

/-- The rows that stay when a database is cleared. -/
theorem SameRows.clear {rows : ExtTreeMap String (Row β)} (h : SameRows codec rows table)
    (database : String) :
    SameRows codec (rows.filter fun _ row => row.databaseName != database)
      (table.filter fun name _ => (databaseFromResource name).toOption != some database) := by
  intro name
  rw [ExtTreeMap.getElem?_filter', ExtTreeMap.getElem?_filter']
  cases hr : rows[name]? with
  | none =>
    rw [h.none_left hr]
    exact .none
  | some row =>
    obtain ⟨document, hd, hs⟩ := h.some_left hr
    rw [hd]
    simp only [Option.filter_some, hs.database, Except.toOption]
    by_cases he : row.databaseName = database
    · simp [he]
    · simp only [bne_iff_ne, ne_eq, he, not_false_eq_true, ↓reduceIte, Option.some.injEq]
      exact .some hs

/-- A request keeps the documents under their own names. -/
theorem Tabled.handle (h : Tabled codec service) (call : Call) :
    Tabled codec (Firestore.handle codec service call).2 := by
  cases hp : service.persistence with
  | none => exact tabled_memory codec (handle_memory codec hp call)
  | some p =>
    obtain ⟨table, hn, ht⟩ := h
    rw [holds_sqlite codec hp] at ht
    by_cases hclear : ∀ database, call.request ≠ .clearDatabase database
    · rcases handle_advance hp ht hn hclear with
        hp' | ⟨p', table', before, after, hp', hadvance⟩
      · exact ⟨table, hn, (holds_sqlite codec hp').mpr ht⟩
      · exact ⟨table', hadvance.named, (holds_sqlite codec hp').mpr hadvance.rows⟩
    · push Not at hclear
      obtain ⟨database, hc⟩ := hclear
      obtain ⟨request, now, uuid⟩ := call
      obtain rfl : request = .clearDatabase database := hc
      simp only [Firestore.handle, answer, clearDatabase, hp]
      split
      · exact ⟨table, hn, (holds_sqlite codec hp).mpr ht⟩
      · exact ⟨_, hn.filter _, ht.clear database⟩

theorem Tabled.run (h : Tabled codec service) (calls : List Call) :
    Tabled codec (run codec service calls) := by
  induction calls generalizing service with
  | nil => exact h
  | cons call calls ih => exact ih (h.handle call)

end

/-- Documents with one name are one document. -/
def Consistent (docs : List Document) : Prop :=
  ∀ d ∈ docs, ∀ d' ∈ docs, d.name = d'.name → d = d'

variable {codec}

section Reads
variable {service : FirestoreService β} {table : Documents}

theorem consistent_of_stored {docs : List Document}
    (h : ∀ d ∈ docs, table[d.name]? = some d) : Consistent docs := by
  intro d hd d' hd' hname
  have hs := h d hd
  rw [hname, h d' hd'] at hs
  exact (Option.some.inj hs).symm

/-- Decoded rows are stored documents. -/
theorem SameRows.decoded {rows : ExtTreeMap String (Row β)} (h : SameRows codec rows table)
    (hn : Named table) {list : List (Row β)}
    (hlist : ∀ row ∈ list, ∃ name : String, rows[name]? = some row) {docs : List Document}
    (hd : (list.mapM fun row => decodeDocument codec row.document).mapError persistenceStatus =
      .ok docs) : ∀ d ∈ docs, table[d.name]? = some d := by
  intro d hm
  cases hl : list.mapM fun row => decodeDocument codec row.document with
  | error e =>
    rw [hl] at hd
    cases hd
  | ok docs' =>
    rw [hl] at hd
    obtain rfl := Except.ok.inj hd
    rw [mapM_eq_allOk, allOk_eq_ok] at hl
    have hok : Except.ok d ∈ list.map fun row => decodeDocument codec row.document :=
      hl ▸ List.mem_map_of_mem hm
    obtain ⟨row, hrow, hdecode⟩ := List.mem_map.mp hok
    obtain ⟨name, hr⟩ := hlist row hrow
    obtain ⟨document, hdoc, hs⟩ := h.some_left hr
    obtain rfl := Except.ok.inj (hs.decode.symm.trans (decodeDocument_ok codec hdecode))
    rw [hn name document hdoc]
    exact hdoc

theorem Holds.documents_stored (h : Holds codec service table) (hn : Named table)
    {names : List String} {docs : List Document}
    (hd : documents codec service names = .ok docs) : ∀ d ∈ docs, table[d.name]? = some d := by
  cases hp : service.persistence with
  | none =>
    rw [holds_memory codec hp] at h
    simp only [documents, hp] at hd
    intro d hm
    obtain rfl := Except.ok.inj hd
    obtain ⟨name, -, hs⟩ := List.mem_filterMap.mp hm
    rw [h] at hs
    rw [hn name d hs]
    exact hs
  | some p =>
    rw [holds_sqlite codec hp] at h
    simp only [documents, hp] at hd
    refine h.decoded hn (fun row hrow => ?_) hd
    obtain ⟨name, -, hs⟩ := List.mem_filterMap.mp hrow
    exact ⟨name, hs⟩

/-- The stored documents are read under their names. -/
theorem Named.mem_scanned {documents : Documents} (h : Named documents) {d : Document} :
    d ∈ documents.toList.map Prod.snd ↔ documents[d.name]? = some d := by
  rw [List.mem_map]
  constructor
  · rintro ⟨⟨name, d⟩, he, rfl⟩
    rw [ExtTreeMap.mem_toList_iff_getElem?_eq_some] at he
    rw [h name d he]
    exact he
  · intro hd
    exact ⟨(d.name, d), ExtTreeMap.mem_toList_iff_getElem?_eq_some.mpr hd, rfl⟩

theorem Named.scanned_names {documents : Documents} (h : Named documents) :
    (documents.toList.map Prod.snd).map Document.name = documents.keys := by
  rw [← ExtTreeMap.map_fst_toList_eq_keys, List.map_map]
  apply List.map_congr_left
  intro entry he
  exact h _ _ (ExtTreeMap.mem_toList_iff_getElem?_eq_some.mp he)

theorem Named.nodup_scanned {documents : Documents} (h : Named documents) :
    ((documents.toList.map Prod.snd).map Document.name).Nodup := by
  rw [h.scanned_names]
  exact ExtTreeMap.nodup_keys

/-- The documents a query scans. -/
def scannedDocuments (codec : DocumentCodec β) (service : FirestoreService β) (database : String) :
    Except Status (List Document) :=
  match service.persistence with
  | some _ => databaseDocuments codec service database
  | none => .ok (service.store.documents.toList.map Prod.snd)

theorem Holds.scanned_stored (h : Holds codec service table) (hn : Named table)
    {database : String} {docs : List Document}
    (hd : scannedDocuments codec service database = .ok docs) :
    ∀ d ∈ docs, table[d.name]? = some d := by
  cases hp : service.persistence with
  | none =>
    rw [holds_memory codec hp] at h
    simp only [scannedDocuments, hp] at hd
    intro d hm
    obtain rfl := Except.ok.inj hd
    rw [h] at hm
    exact hn.mem_scanned.mp hm
  | some p =>
    rw [holds_sqlite codec hp] at h
    simp only [scannedDocuments, databaseDocuments, hp] at hd
    refine h.decoded hn (fun row hrow => ?_) hd
    obtain ⟨⟨name, row⟩, he, rfl⟩ := List.mem_map.mp (List.mem_filter.mp hrow).1
    exact ⟨name, ExtTreeMap.mem_toList_iff_getElem?_eq_some.mp he⟩

/-- The decoded documents carry the names of their rows. -/
theorem SameRows.decoded_names {rows : ExtTreeMap String (Row β)} (h : SameRows codec rows table)
    (hn : Named table) {entries : List (String × Row β)}
    (hentries : ∀ entry ∈ entries, rows[entry.1]? = some entry.2) {docs : List Document}
    (hd : (entries.map Prod.snd).mapM (fun row => decodeDocument codec row.document) = .ok docs) :
    docs.map Document.name = entries.map Prod.fst := by
  rw [mapM_eq_allOk, allOk_eq_ok, List.map_map] at hd
  induction entries generalizing docs with
  | nil =>
    cases docs with
    | nil => rfl
    | cons d docs => cases hd
  | cons entry entries ih =>
    cases docs with
    | nil => cases hd
    | cons d docs =>
      rw [List.map_cons, List.map_cons, List.cons.injEq] at hd
      rw [List.forall_mem_cons] at hentries
      obtain ⟨document, hdoc, hs⟩ := h.some_left hentries.1
      obtain rfl := Except.ok.inj (hs.decode.symm.trans (decodeDocument_ok codec hd.1))
      rw [List.map_cons, List.map_cons, hn _ document hdoc, ih hentries.2 hd.2]

theorem keys_nodup {α : Type} (m : ExtTreeMap String α) : (m.toList.map Prod.fst).Nodup := by
  rw [ExtTreeMap.map_fst_toList_eq_keys]
  exact ExtTreeMap.nodup_keys

/-- No name is scanned twice. -/
theorem Holds.scanned_nodup (h : Holds codec service table) (hn : Named table)
    {database : String} {docs : List Document}
    (hd : scannedDocuments codec service database = .ok docs) :
    (docs.map Document.name).Nodup := by
  cases hp : service.persistence with
  | none =>
    rw [holds_memory codec hp] at h
    simp only [scannedDocuments, hp] at hd
    obtain rfl := Except.ok.inj hd
    rw [h]
    exact hn.nodup_scanned
  | some p =>
    rw [holds_sqlite codec hp] at h
    simp only [scannedDocuments, databaseDocuments, hp] at hd
    rw [List.filter_map] at hd
    generalize hentries : p.documents.toList.filter _ = entries at hd
    have hsub : entries.Sublist p.documents.toList := hentries ▸ List.filter_sublist
    cases hl : (entries.map Prod.snd).mapM fun row => decodeDocument codec row.document with
    | error e =>
      rw [hl] at hd
      cases hd
    | ok docs' =>
      rw [hl] at hd
      obtain rfl := Except.ok.inj hd
      have hmem : ∀ entry ∈ entries, p.documents[entry.1]? = some entry.2 := fun entry he =>
        ExtTreeMap.mem_toList_iff_getElem?_eq_some.mp (hsub.subset he)
      rw [h.decoded_names hn hmem hl]
      exact (keys_nodup _).sublist (hsub.map _)

/-- A stored document is read by its name. -/
theorem Holds.documents_single (h : Holds codec service table) {d : Document}
    (hd : table[d.name]? = some d) : documents codec service [d.name] = .ok [d] := by
  cases hp : service.persistence with
  | none =>
    rw [holds_memory codec hp] at h
    simp [documents, hp, h, hd]
  | some p =>
    rw [holds_sqlite codec hp] at h
    cases hr : p.documents[d.name]? with
    | none =>
      rw [h.none_left hr] at hd
      cases hd
    | some row =>
      obtain ⟨document, hdoc, hs⟩ := h.some_left hr
      obtain rfl := Option.some.inj (hdoc.symm.trans hd)
      simp only [documents, hp, List.filterMap_cons, List.filterMap_nil, hr, List.mapM_cons,
        List.mapM_nil, decodeDocument, hs.decode]
      rfl

theorem queryDocs_eq (parent : String) (query : StructuredQuery) :
    queryDocs codec service parent query =
      (querySelector query).bind fun selector =>
        (databaseFromResource parent).bind fun database =>
          (scannedDocuments codec service database).bind fun docs =>
            evaluateQuery docs parent selector query := by
  unfold queryDocs scannedDocuments
  cases service.persistence <;> rfl

theorem queryDocs_ok {parent : String} {query : StructuredQuery} {docs : List Document}
    (h : queryDocs codec service parent query = .ok docs) :
    ∃ selector database scanned, querySelector query = .ok selector ∧
      databaseFromResource parent = .ok database ∧
      scannedDocuments codec service database = .ok scanned ∧
      evaluateQuery scanned parent selector query = .ok docs := by
  rw [queryDocs_eq] at h
  obtain ⟨selector, hs, h⟩ := exceptBind_eq_ok.mp h
  obtain ⟨database, hdb, h⟩ := exceptBind_eq_ok.mp h
  obtain ⟨scanned, hc, h⟩ := exceptBind_eq_ok.mp h
  exact ⟨selector, database, scanned, hs, hdb, hc, h⟩

end Reads

section Queries
variable {documents docs : List Document} {parent : String} {selector : CollectionSelector}
variable {query : StructuredQuery}

/-- The documents that have every order field, in order. -/
def sortedDocuments (orders : List OrderField) (docs : List Document) : List Document :=
  (docs.filter fun d => orders.all fun (field, _) => (fieldValue d field).isSome).insertionSort
    fun a b => (compareDocuments orders a b).isLE

/-- An accepted query, stage by stage. -/
theorem evaluateQuery_ok (h : evaluateQuery documents parent selector query = .ok docs) :
    ∃ matched explicit started ended,
      matchingDocuments parent selector query.where_ documents = .ok matched ∧
      explicitOrders query.orderBy = .ok explicit ∧
      applyCursor (effectiveOrders explicit query.where_) true query.startAt
        (sortedDocuments (effectiveOrders explicit query.where_) matched) = .ok started ∧
      applyCursor (effectiveOrders explicit query.where_) false query.endAt started = .ok ended ∧
      ((ended.drop query.offset.toNat).take (query.limit.getD (2 ^ 31 - 1)).toNat).mapM
        (projectDocument query.select) = .ok docs := by
  obtain ⟨matched, hm, h⟩ := exceptBind_eq_ok.mp h
  obtain ⟨explicit, he, h⟩ := exceptBind_eq_ok.mp h
  obtain ⟨started, hs, h⟩ := exceptBind_eq_ok.mp h
  obtain ⟨ended, hd, h⟩ := exceptBind_eq_ok.mp h
  exact ⟨matched, explicit, started, ended, hm, he, hs, hd, h⟩

theorem evaluateQuery_eq {matched started ended : List Document} {explicit : List OrderField}
    (hm : matchingDocuments parent selector query.where_ documents = .ok matched)
    (he : explicitOrders query.orderBy = .ok explicit)
    (hs : applyCursor (effectiveOrders explicit query.where_) true query.startAt
      (sortedDocuments (effectiveOrders explicit query.where_) matched) = .ok started)
    (hd : applyCursor (effectiveOrders explicit query.where_) false query.endAt started =
      .ok ended) :
    evaluateQuery documents parent selector query =
      ((ended.drop query.offset.toNat).take (query.limit.getD (2 ^ 31 - 1)).toNat).mapM
        (projectDocument query.select) := by
  unfold sortedDocuments at hs
  simp only [evaluateQuery, hm, he, bind, Except.bind, hs, hd]

/-- Whether the selector and the filter let the document through. -/
def keepsDocument (parent : String) (selector : CollectionSelector) (filter : Option Filter)
    (doc : Document) : Except Status Bool :=
  if matchesCollection doc.name parent selector.collectionId selector.allDescendants then
    match filter with
    | some f => filterMatches doc f
    | none => .ok true
  else .ok false

theorem matchingDocuments_cons (filter : Option Filter) (doc : Document)
    (documents : List Document) :
    matchingDocuments parent selector filter (doc :: documents) =
      (keepsDocument parent selector filter doc).bind fun keep =>
        (matchingDocuments parent selector filter documents).map fun docs =>
          if keep then doc :: docs else docs := by
  conv_lhs => unfold matchingDocuments
  unfold keepsDocument
  generalize matchingDocuments parent selector filter documents = rest
  split
  · cases filter with
    | none => cases rest <;> rfl
    | some f => cases filterMatches doc f <;> cases rest <;> rfl
  · cases rest <;> rfl

/-- The documents let through are those the selector and the filter keep, if none of the
scanned ones makes the filter fail. -/
theorem matchingDocuments_ok {filter : Option Filter} {documents docs : List Document} :
    matchingDocuments parent selector filter documents = .ok docs ↔
      (∀ d ∈ documents, (keepsDocument parent selector filter d).isOk = true) ∧
        documents.filter (fun d =>
          (keepsDocument parent selector filter d).toOption == some true) = docs := by
  induction documents generalizing docs with
  | nil => simp [matchingDocuments]
  | cons document documents ih =>
    rw [matchingDocuments_cons, exceptBind_eq_ok, List.forall_mem_cons]
    cases hk : keepsDocument parent selector filter document with
    | error e => simp [Except.isOk, Except.toBool]
    | ok keep =>
      simp only [Except.ok.injEq, exists_eq_left', exceptMap_eq_ok, ih]
      cases keep <;> simp [hk, Except.isOk, Except.toBool, Except.toOption]

theorem matchingDocuments_subset {filter : Option Filter} {documents docs : List Document}
    (h : matchingDocuments parent selector filter documents = .ok docs) : docs ⊆ documents := by
  induction documents generalizing docs with
  | nil =>
    obtain rfl := Except.ok.inj h
    exact List.Subset.refl _
  | cons document documents ih =>
    rw [matchingDocuments_cons] at h
    obtain ⟨keep, -, h⟩ := exceptBind_eq_ok.mp h
    obtain ⟨rest, hrest, rfl⟩ := exceptMap_eq_ok.mp h
    split
    · exact List.cons_subset_cons _ (ih hrest)
    · exact List.subset_cons_of_subset _ (ih hrest)

theorem applyCursor_subset {orders : List OrderField} {start : Bool} {cursor : Option Cursor}
    {kept : List Document} (h : applyCursor orders start cursor docs = .ok kept) : kept ⊆ docs := by
  unfold applyCursor at h
  split at h
  · obtain rfl := Except.ok.inj h
    exact List.Subset.refl _
  · split at h
    · cases h
    · obtain rfl := Except.ok.inj h
      exact List.filter_subset_self _

theorem sortedDocuments_subset (orders : List OrderField) (docs : List Document) :
    sortedDocuments orders docs ⊆ docs := by
  intro d hd
  rw [sortedDocuments, List.mem_insertionSort] at hd
  exact (List.mem_filter.mp hd).1

theorem projectDocument_name {select : Option (List String)} {document projected : Document}
    (h : projectDocument select document = .ok projected) : projected.name = document.name := by
  unfold projectDocument at h
  split at h
  · obtain rfl := Except.ok.inj h
    rfl
  · obtain ⟨fields, -, h⟩ := exceptBind_eq_ok.mp h
    obtain rfl := Except.ok.inj h
    rfl

/-- Each document of an answer is a projection of a scanned one. -/
theorem evaluateQuery_mem (h : evaluateQuery documents parent selector query = .ok docs)
    {d : Document} (hd : d ∈ docs) :
    ∃ source ∈ documents, projectDocument query.select source = .ok d := by
  obtain ⟨matched, explicit, started, ended, hm, -, hs, he, hp⟩ := evaluateQuery_ok h
  rw [mapM_eq_allOk, allOk_eq_ok] at hp
  have hok : Except.ok d ∈ ((ended.drop query.offset.toNat).take
      (query.limit.getD (2 ^ 31 - 1)).toNat).map (projectDocument query.select) :=
    hp ▸ List.mem_map_of_mem hd
  obtain ⟨source, hsource, hproject⟩ := List.mem_map.mp hok
  have hended := List.mem_of_mem_drop (List.mem_of_mem_take hsource)
  exact ⟨source, matchingDocuments_subset hm (sortedDocuments_subset _ _ (applyCursor_subset hs
    (applyCursor_subset he hended))), hproject⟩

theorem evaluateQuery_consistent (hc : Consistent documents)
    (h : evaluateQuery documents parent selector query = .ok docs) : Consistent docs := by
  intro d hd d' hd' hname
  obtain ⟨source, hs, hp⟩ := evaluateQuery_mem h hd
  obtain ⟨source', hs', hp'⟩ := evaluateQuery_mem h hd'
  rw [projectDocument_name hp, projectDocument_name hp'] at hname
  obtain rfl := hc source hs source' hs' hname
  exact Except.ok.inj (hp.symm.trans hp')

end Queries

theorem Tabled.documents_consistent {service : FirestoreService β} (h : Tabled codec service)
    {names : List String} {docs : List Document}
    (hd : documents codec service names = .ok docs) : Consistent docs := by
  obtain ⟨table, hn, ht⟩ := h
  exact consistent_of_stored (ht.documents_stored hn hd)

theorem Tabled.queryDocs_consistent {service : FirestoreService β} (h : Tabled codec service)
    {parent : String} {query : StructuredQuery} {docs : List Document}
    (hd : queryDocs codec service parent query = .ok docs) : Consistent docs := by
  obtain ⟨table, hn, ht⟩ := h
  obtain ⟨selector, database, scanned, -, -, hs, he⟩ := queryDocs_ok hd
  exact evaluateQuery_consistent (consistent_of_stored (ht.scanned_stored hn hs)) he

end FirebaseEmu.Firestore
