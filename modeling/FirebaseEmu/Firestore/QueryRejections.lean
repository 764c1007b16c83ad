import FirebaseEmu.Firestore.FieldPaths
import FirebaseEmu.Firestore.FieldSyntax
import FirebaseEmu.Firestore.Creation

namespace FirebaseEmu.Firestore
open Lib Std

/-- The path is the document's name or can be read. -/
def readablePath (path : String) : Bool := path == "__name__" || (fieldPath path).isOk

mutual

/-- No document makes the filter fail: it has a type, an operator and its operands throughout.
The operator of a filter on an unreadable path is never looked at. -/
def Filter.sound : Filter → Bool
  | .unset => false
  | .compositeFilter op filters => (op == 1 || op == 2) && Filter.soundAll filters
  | .fieldFilter none _ _ => false
  | .fieldFilter (some _) _ none => false
  | .fieldFilter (some field) op (some _) => !readablePath field || decide (1 ≤ op ∧ op ≤ 10)
  | .unaryFilter _ none => false
  | .unaryFilter op (some field) => !readablePath field || decide (2 ≤ op ∧ op ≤ 5)

def Filter.soundAll : List Filter → Bool
  | [] => true
  | filter :: filters => filter.sound && Filter.soundAll filters

end

section Filters
variable {doc : Document}

theorem fieldValue_unreadable {path : String} (h : readablePath path = false) :
    fieldValue doc path = none := by
  unfold readablePath at h
  unfold fieldValue
  cases hp : fieldPath path with
  | ok segments => simp [hp, Except.isOk, Except.toBool] at h
  | error status => simp_all [Except.isOk, Except.toBool]

/-- A document that has a value at the path. -/
theorem exists_fieldValue {path : String} (h : readablePath path = true) :
    ∃ fields : Fields, fields.KeySorted ∧
      ∀ doc : Document, doc.fields = fields → (fieldValue doc path).isSome = true := by
  unfold readablePath at h
  by_cases hname : path = "__name__"
  · exact ⟨[], Fields.KeySorted.nil, fun doc _ => by simp [fieldValue, hname]⟩
  · cases hp : fieldPath path with
    | error status => simp [hname, hp, Except.isOk, Except.toBool] at h
    | ok segments =>
      refine ⟨nestedSet [] segments (some (.nullValue 0)), ?_, fun doc hdoc => ?_⟩
      · exact Fields.KeySorted.nil.nestedSet segments (by simp [Value.KeySorted])
      · have hget := nestedGet_nestedSet_self [] (fieldPath_ok hp).1 (some (.nullValue 0))
        simp [fieldValue, hname, hp, hdoc, hget]

theorem fieldFilterMatches_isOk (op : Int) (a b : Value) :
    (fieldFilterMatches op a b).isOk = decide (1 ≤ op ∧ op ≤ 10) := by
  unfold fieldFilterMatches
  split
  case h_9 => cases a <;> rfl
  case h_11 =>
    refine (decide_eq_false ?_).symm
    simp only [imp_false] at *
    omega
  all_goals rfl

theorem unaryFilterMatches_isOk (op : Int) (a : Value) :
    (unaryFilterMatches op a).isOk = decide (2 ≤ op ∧ op ≤ 5) := by
  unfold unaryFilterMatches
  dsimp only
  split
  case h_5 =>
    refine (decide_eq_false ?_).symm
    simp only [imp_false] at *
    omega
  all_goals rfl

theorem filterMatchesAll_eq (filters : List Filter) :
    filterMatchesAll doc filters = allOk (filters.map (filterMatches doc)) := by
  rw [← mapM_eq_allOk]
  induction filters with
  | nil => rfl
  | cons filter filters ih => rw [filterMatchesAll, ih, List.mapM_cons]

/-- A composite filter evaluates all its parts before its operator is looked at. -/
theorem composite_isOk (op : Int) (filters : List Filter) :
    (filterMatches doc (.compositeFilter op filters)).isOk = true ↔
      (op = 1 ∨ op = 2) ∧ ∀ filter ∈ filters, (filterMatches doc filter).isOk = true := by
  have hall := allOk_isOk (filters.map (filterMatches doc))
  rw [List.forall_mem_map] at hall
  rw [← hall, filterMatches, filterMatchesAll_eq]
  cases allOk (filters.map (filterMatches doc)) with
  | error status => simp [bind, Except.bind, Except.isOk, Except.toBool]
  | ok values =>
    simp only [bind, Except.bind]
    split <;> simp_all [Except.isOk, Except.toBool, pure, Except.pure, throw, throwThe,
      MonadExceptOf.throw]

theorem fieldFilter_isOk (field : String) (op : Int) (b : Value) :
    (filterMatches doc (.fieldFilter (some field) op (some b))).isOk = true ↔
      fieldValue doc field = none ∨ (1 ≤ op ∧ op ≤ 10) := by
  rw [filterMatches]
  cases fieldValue doc field with
  | none => simp [Except.isOk, Except.toBool]
  | some a => simp [fieldFilterMatches_isOk]

theorem unaryFilter_isOk (field : String) (op : Int) :
    (filterMatches doc (.unaryFilter op (some field))).isOk = true ↔
      fieldValue doc field = none ∨ (2 ≤ op ∧ op ≤ 5) := by
  rw [filterMatches]
  cases fieldValue doc field with
  | none => simp [Except.isOk, Except.toBool]
  | some a => simp [unaryFilterMatches_isOk]

mutual

theorem Filter.sound_isOk (filter : Filter) (h : filter.sound = true) :
    (filterMatches doc filter).isOk = true := by
  match filter with
  | .unset => simp [Filter.sound] at h
  | .compositeFilter op filters =>
    simp only [Filter.sound, Bool.and_eq_true, Bool.or_eq_true, beq_iff_eq] at h
    exact (composite_isOk op filters).mpr ⟨h.1, Filter.soundAll_isOk filters h.2⟩
  | .fieldFilter none _ _ => simp [Filter.sound] at h
  | .fieldFilter (some _) _ none => simp [Filter.sound] at h
  | .fieldFilter (some field) op (some b) =>
    simp only [Filter.sound, Bool.or_eq_true, Bool.not_eq_true', decide_eq_true_eq] at h
    exact (fieldFilter_isOk field op b).mpr (h.imp_left fieldValue_unreadable)
  | .unaryFilter _ none => simp [Filter.sound] at h
  | .unaryFilter op (some field) =>
    simp only [Filter.sound, Bool.or_eq_true, Bool.not_eq_true', decide_eq_true_eq] at h
    exact (unaryFilter_isOk field op).mpr (h.imp_left fieldValue_unreadable)

theorem Filter.soundAll_isOk (filters : List Filter) (h : Filter.soundAll filters = true) :
    ∀ filter ∈ filters, (filterMatches doc filter).isOk = true := by
  match filters with
  | [] => simp
  | filter :: filters =>
    simp only [Filter.soundAll, Bool.and_eq_true] at h
    exact List.forall_mem_cons.mpr
      ⟨Filter.sound_isOk filter h.1, Filter.soundAll_isOk filters h.2⟩

end

end Filters

/-- The filter fails on every document with the fields. -/
def Filter.FailsOn (filter : Filter) (fields : Fields) : Prop :=
  ∀ doc : Document, doc.fields = fields → (filterMatches doc filter).isOk = false

theorem fails_of_value {filter : Filter} {field : String} (h : readablePath field = true)
    (hf : ∀ doc : Document, (fieldValue doc field).isSome = true →
      (filterMatches doc filter).isOk = false) :
    ∃ fields : Fields, fields.KeySorted ∧ filter.FailsOn fields := by
  obtain ⟨fields, hs, hv⟩ := exists_fieldValue h
  exact ⟨fields, hs, fun doc hdoc => hf doc (hv doc hdoc)⟩

mutual

theorem Filter.exists_fails (filter : Filter) (h : filter.sound = false) :
    ∃ fields : Fields, fields.KeySorted ∧ filter.FailsOn fields := by
  match filter with
  | .unset => exact ⟨[], Fields.KeySorted.nil, fun _ _ => rfl⟩
  | .compositeFilter op filters =>
    rw [Filter.sound, Bool.and_eq_false_iff] at h
    rcases h with hop | hfilters
    · refine ⟨[], Fields.KeySorted.nil, fun doc _ => Bool.eq_false_iff.mpr fun hok => ?_⟩
      have hop' := ((composite_isOk op filters).mp hok).1
      simp only [Bool.or_eq_false_iff, beq_eq_false_iff_ne] at hop
      omega
    · obtain ⟨filter, hm, fields, hs, hfails⟩ := Filter.exists_failsAll filters hfilters
      refine ⟨fields, hs, fun doc hdoc => Bool.eq_false_iff.mpr fun hok => ?_⟩
      have hall := ((composite_isOk op filters).mp hok).2 filter hm
      rw [hfails doc hdoc] at hall
      cases hall
  | .fieldFilter none _ _ => exact ⟨[], Fields.KeySorted.nil, fun _ _ => rfl⟩
  | .fieldFilter (some _) _ none => exact ⟨[], Fields.KeySorted.nil, fun _ _ => rfl⟩
  | .fieldFilter (some field) op (some b) =>
    simp only [Filter.sound, Bool.or_eq_false_iff, Bool.not_eq_false', decide_eq_false_iff_not] at h
    refine fails_of_value h.1 fun doc hv => Bool.eq_false_iff.mpr fun hok => ?_
    rcases (fieldFilter_isOk field op b).mp hok with hnone | hop
    · simp [hnone] at hv
    · exact h.2 hop
  | .unaryFilter _ none => exact ⟨[], Fields.KeySorted.nil, fun _ _ => rfl⟩
  | .unaryFilter op (some field) =>
    simp only [Filter.sound, Bool.or_eq_false_iff, Bool.not_eq_false', decide_eq_false_iff_not] at h
    refine fails_of_value h.1 fun doc hv => Bool.eq_false_iff.mpr fun hok => ?_
    rcases (unaryFilter_isOk field op).mp hok with hnone | hop
    · simp [hnone] at hv
    · exact h.2 hop

theorem Filter.exists_failsAll (filters : List Filter) (h : Filter.soundAll filters = false) :
    ∃ filter ∈ filters, ∃ fields : Fields, fields.KeySorted ∧ filter.FailsOn fields := by
  match filters with
  | [] => simp [Filter.soundAll] at h
  | filter :: filters =>
    rw [Filter.soundAll, Bool.and_eq_false_iff] at h
    rcases h with hfirst | hrest
    · exact ⟨filter, List.mem_cons_self, Filter.exists_fails filter hfirst⟩
    · obtain ⟨filter', hm, hfails⟩ := Filter.exists_failsAll filters hrest
      exact ⟨filter', List.mem_cons_of_mem _ hm, hfails⟩

end

/-- A cursor has no more values than there are orders. -/
def cursorFits (orders : List OrderField) (cursor : Option Cursor) : Bool :=
  cursor.all fun cursor => decide (cursor.values.length ≤ orders.length)

/-- The document lies on the cursor's side. -/
def cursorKeeps (orders : List OrderField) (start : Bool) (cursor : Option Cursor)
    (doc : Document) : Bool :=
  cursor.all fun cursor =>
    let cmp := compareCursor orders doc cursor.values
    if start then cmp.isGT || (cmp.isEq && cursor.before)
    else cmp.isLT || (cmp.isEq && !cursor.before)

theorem applyCursor_fits {orders : List OrderField} (start : Bool) {cursor : Option Cursor}
    (h : cursorFits orders cursor = true) (docs : List Document) :
    applyCursor orders start cursor docs = .ok (docs.filter (cursorKeeps orders start cursor)) := by
  cases cursor with
  | none =>
    have hall : cursorKeeps orders start none = fun _ => true := rfl
    rw [applyCursor, hall, List.filter_true]
  | some cursor =>
    have hle : cursor.values.length ≤ orders.length := by simpa [cursorFits] using h
    rw [applyCursor, if_neg (Nat.not_lt.mpr hle)]
    rfl

theorem cursorFits_of_ok {orders : List OrderField} {start : Bool} {cursor : Option Cursor}
    {docs kept : List Document} (h : applyCursor orders start cursor docs = .ok kept) :
    cursorFits orders cursor = true := by
  cases cursor with
  | none => rfl
  | some cursor =>
    rw [applyCursor] at h
    split at h
    · cases h
    · rename_i hle
      simpa [cursorFits] using hle

/-- Every path to be returned is readable. -/
def selectReadable (select : Option (List String)) : Bool := select.all fun s => s.all readablePath

theorem projectFields_readable (source fields : Fields) (select : List String) :
    (projectFields source fields select).isOk = select.all readablePath := by
  induction select generalizing fields with
  | nil => rfl
  | cons field select ih =>
    rw [List.all_cons, projectFields]
    by_cases hname : field = "__name__"
    · simp [hname, readablePath, ih]
    · cases hp : fieldPath field with
      | error status =>
        simp [hname, readablePath, hp, bind, Except.bind, Except.isOk, Except.toBool]
      | ok path =>
        have hr : readablePath field = true := by
          simp [readablePath, hp, Except.isOk, Except.toBool]
        simp [hname, bind, Except.bind, ih, hr]

theorem projectDocument_readable (select : Option (List String)) (doc : Document) :
    (projectDocument select doc).isOk = selectReadable select := by
  cases select with
  | none => rfl
  | some select =>
    rw [selectReadable, Option.all_some, ← projectFields_readable doc.fields [] select]
    simp only [projectDocument]
    cases projectFields doc.fields [] select <;> rfl

/-- A query that many documents reach returns some of them. -/
def Returns (query : StructuredQuery) (reached : Nat) : Prop :=
  0 < query.limit.getD (2 ^ 31 - 1) ∧ query.offset.toNat < reached

/-- Projecting what is returned fails only on a path that cannot be read. -/
theorem projected_isOk (query : StructuredQuery) (docs : List Document) :
    (((docs.drop query.offset.toNat).take (query.limit.getD (2 ^ 31 - 1)).toNat).mapM
      (projectDocument query.select)).isOk = true ↔
        (Returns query docs.length → selectReadable query.select = true) := by
  rw [mapM_eq_allOk, allOk_isOk, List.forall_mem_map]
  simp only [projectDocument_readable]
  have hne : Returns query docs.length ↔
      (docs.drop query.offset.toNat).take (query.limit.getD (2 ^ 31 - 1)).toNat ≠ [] := by
    rw [← List.length_pos_iff_ne_nil, List.length_take, List.length_drop, Returns]
    omega
  rw [hne]
  constructor
  · intro h hn
    obtain ⟨d, hd⟩ := List.exists_mem_of_ne_nil _ hn
    exact h d hd
  · intro h d hd
    exact h (List.ne_nil_of_mem hd)

section Stages
variable {parent : String} {selector : CollectionSelector} {query : StructuredQuery}
variable {orders : List OrderField}

/-- The collection, the filter, the orders and both cursors let the document through. -/
def reaches (parent : String) (selector : CollectionSelector) (query : StructuredQuery)
    (orders : List OrderField) (doc : Document) : Bool :=
  (keepsDocument parent selector query.where_ doc).toOption == some true &&
    orders.all (fun order => (fieldValue doc order.1).isSome) &&
      (cursorKeeps orders true query.startAt doc && cursorKeeps orders false query.endAt doc)

/-- The number of documents left for the offset and the limit. -/
theorem reached_length (docs : List Document) :
    (((sortedDocuments orders (docs.filter fun d =>
      (keepsDocument parent selector query.where_ d).toOption == some true)).filter
        (cursorKeeps orders true query.startAt)).filter
          (cursorKeeps orders false query.endAt)).length =
      (docs.filter (reaches parent selector query orders)).length := by
  have hsorted : ∀ matched, (sortedDocuments orders matched).Perm
      (matched.filter fun d => orders.all fun order => (fieldValue d order.1).isSome) :=
    fun matched => List.perm_insertionSort _ _
  refine (((hsorted _).filter _).filter _).length_eq.trans ?_
  simp only [List.filter_filter]
  refine congrArg List.length (List.filter_congr fun d _ => ?_)
  simp only [reaches]
  grind

/-- When the evaluation of a query succeeds. -/
theorem evaluateQuery_isOk (documents : List Document) :
    (evaluateQuery documents parent selector query).isOk = true ↔
      (∀ d ∈ documents, (keepsDocument parent selector query.where_ d).isOk = true) ∧
      ∃ orders, queryOrders query = .ok orders ∧
        (cursorFits orders query.startAt && cursorFits orders query.endAt) = true ∧
        (Returns query (documents.filter (reaches parent selector query orders)).length →
          selectReadable query.select = true) := by
  constructor
  · intro h
    cases he : evaluateQuery documents parent selector query with
    | error status => simp [he, Except.isOk, Except.toBool] at h
    | ok docs =>
      obtain ⟨matched, explicit, started, ended, hm, hx, hs, hd, hp⟩ := evaluateQuery_ok he
      obtain ⟨hkeep, rfl⟩ := matchingDocuments_ok.mp hm
      have hstart := cursorFits_of_ok hs
      have hend := cursorFits_of_ok hd
      rw [applyCursor_fits true hstart] at hs
      obtain rfl := Except.ok.inj hs
      rw [applyCursor_fits false hend] at hd
      obtain rfl := Except.ok.inj hd
      have hproj := (projected_isOk query _).mp (congrArg Except.isOk hp)
      rw [reached_length] at hproj
      exact ⟨hkeep, _, by rw [queryOrders, hx]; rfl, by rw [hstart, hend]; rfl, hproj⟩
  · rintro ⟨hkeep, orders, hq, hfits, hproj⟩
    obtain ⟨explicit, hx, rfl⟩ := exceptMap_eq_ok.mp hq
    obtain ⟨hstart, hend⟩ := (Bool.and_eq_true _ _).mp hfits
    rw [evaluateQuery_eq (matchingDocuments_ok.mpr ⟨hkeep, rfl⟩) hx (applyCursor_fits true hstart _)
      (applyCursor_fits false hend _), projected_isOk, reached_length]
    exact hproj

/-- The selector and the orders of a query that passes the checks made whatever the documents
are: of the selector and the bounds, the parent, the order fields and the cursors. -/
def queryShape (parent : String) (query : StructuredQuery) :
    Option (CollectionSelector × List OrderField) :=
  match querySelector query, databaseFromResource parent, queryOrders query with
  | .ok selector, .ok _, .ok orders =>
    if cursorFits orders query.startAt && cursorFits orders query.endAt then
      some (selector, orders)
    else none
  | _, _, _ => none

theorem queryShape_eq_some : queryShape parent query = some (selector, orders) ↔
    querySelector query = .ok selector ∧ (∃ database, databaseFromResource parent = .ok database) ∧
      queryOrders query = .ok orders ∧
      (cursorFits orders query.startAt && cursorFits orders query.endAt) = true := by
  unfold queryShape
  cases querySelector query <;> cases databaseFromResource parent <;> cases queryOrders query <;>
    simp
  grind

variable {β : Type} (codec : DocumentCodec β)

/-- When the in-memory service answers a query. -/
theorem queryDocs_isOk {service : FirestoreService β} (hm : service.persistence = none)
    (parent : String) (query : StructuredQuery) :
    (queryDocs codec service parent query).isOk = true ↔
      ∃ selector orders, queryShape parent query = some (selector, orders) ∧
        (∀ d ∈ service.store.documents.toList.map Prod.snd,
          (keepsDocument parent selector query.where_ d).isOk = true) ∧
        (Returns query ((service.store.documents.toList.map Prod.snd).filter
          (reaches parent selector query orders)).length → selectReadable query.select = true) := by
  have hscan : ∀ database, scannedDocuments codec service database =
      .ok (service.store.documents.toList.map Prod.snd) := by
    intro database
    simp only [scannedDocuments, hm]
  rw [queryDocs_eq]
  cases hs : querySelector query with
  | error status => simp [queryShape_eq_some, hs, Except.bind, Except.isOk, Except.toBool]
  | ok selector =>
    cases hd : databaseFromResource parent with
    | error status => simp [queryShape_eq_some, hd, Except.bind, Except.isOk, Except.toBool]
    | ok database =>
      simp only [Except.bind, hscan, evaluateQuery_isOk, queryShape_eq_some, hs, hd,
        Except.ok.injEq, exists_eq', true_and]
      constructor
      · rintro ⟨hkeep, orders, hq, hfits, hproj⟩
        exact ⟨selector, orders, ⟨rfl, hq, hfits⟩, hkeep, hproj⟩
      · rintro ⟨_, orders, ⟨rfl, hq, hfits⟩, hkeep, hproj⟩
        exact ⟨hkeep, orders, hq, hfits, hproj⟩

end Stages

section Stores
variable {β : Type} {allowed : String → Prop}

/-- A service in memory whose documents have allowed names. -/
structure InMemory (allowed : String → Prop) (service : FirestoreService β) : Prop where
  memory : service.persistence = none
  stored : ∀ (name : String) (document : Document),
    service.store.documents[name]? = some document → allowed name ∧ document.KeySorted

def storeOf : List Document → Store
  | [] => .empty
  | document :: docs =>
    (storeOf docs).setDocuments ((storeOf docs).documents.insert document.name document)
      ((storeOf docs).named.insert document)

def serviceOf (docs : List Document) : FirestoreService β := ⟨storeOf docs, none, 0, false, []⟩

theorem stored_storeOf {docs : List Document} {name : String} {document : Document}
    (h : (storeOf docs).documents[name]? = some document) :
    document ∈ docs ∧ document.name = name := by
  refine ⟨?_, (storeOf docs).named name document h⟩
  induction docs with
  | nil =>
    have hnone : (storeOf []).documents[name]? = none := rfl
    rw [hnone] at h
    cases h
  | cons first docs ih =>
    have hinsert : (storeOf (first :: docs)).documents =
      (storeOf docs).documents.insert first.name first := rfl
    rw [hinsert, insert_eq_put, getElem?_put] at h
    split at h
    · exact List.mem_cons.mpr (.inl (Option.some.inj h).symm)
    · exact List.mem_cons_of_mem _ (ih h)

theorem storeOf_stored {docs : List Document} (hn : (docs.map Document.name).Nodup)
    {document : Document} (h : document ∈ docs) :
    (storeOf docs).documents[document.name]? = some document := by
  induction docs with
  | nil => cases h
  | cons first docs ih =>
    have hinsert : (storeOf (first :: docs)).documents =
      (storeOf docs).documents.insert first.name first := rfl
    rw [List.map_cons, List.nodup_cons] at hn
    rw [hinsert, insert_eq_put, getElem?_put]
    rcases List.mem_cons.mp h with rfl | hm
    · rw [if_pos rfl]
    · have hne : first.name ≠ document.name := fun he => hn.1 (he ▸ List.mem_map_of_mem hm)
      rw [if_neg hne]
      exact ih hn.2 hm

theorem serviceOf_inMemory {docs : List Document}
    (h : ∀ d ∈ docs, allowed d.name ∧ d.KeySorted) :
    InMemory allowed (serviceOf docs : FirestoreService β) := by
  refine ⟨rfl, fun name document hs => ?_⟩
  obtain ⟨hm, rfl⟩ := stored_storeOf hs
  exact h document hm

/-- Documents of different names are scanned together. -/
theorem scanned_serviceOf {docs : List Document} (hn : (docs.map Document.name).Nodup) :
    docs ⊆ (storeOf docs).documents.toList.map Prod.snd := by
  intro d hd
  exact (storeOf docs).named.mem_scanned.mpr (storeOf_stored hn hd)

variable (codec : DocumentCodec β)

/-- Whatever the services in memory hold, all of them reject the query or none does. -/
def RejectionIndependent (allowed : String → Prop) (parent : String) (query : StructuredQuery) :
    Prop :=
  ∀ service service' : FirestoreService β, InMemory allowed service → InMemory allowed service' →
    (queryDocs codec service parent query).isOk = (queryDocs codec service' parent query).isOk

/-- No documents of different names suffice for the query to return one. -/
def ReturnsNone (allowed : String → Prop) (parent : String) (selector : CollectionSelector)
    (query : StructuredQuery) (orders : List OrderField) : Prop :=
  ∀ docs : List Document, (docs.map Document.name).Nodup →
    (∀ d ∈ docs, (allowed d.name ∧ d.KeySorted) ∧ reaches parent selector query orders d = true) →
    ¬ Returns query docs.length

/-- The query fails a check made whatever the documents are, or its collection has no names,
or its filter is sound and its projection is readable or never carried out. -/
def DataIndependent (allowed : String → Prop) (parent : String) (query : StructuredQuery) : Prop :=
  ∀ selector orders, queryShape parent query = some (selector, orders) →
    (∀ name, allowed name →
      matchesCollection name parent selector.collectionId selector.allDescendants = false) ∨
    (∀ filter ∈ query.where_, filter.sound = true) ∧
      (selectReadable query.select = true ∨ ReturnsNone allowed parent selector query orders)

variable {parent : String} {query : StructuredQuery} {selector : CollectionSelector}
variable {orders : List OrderField}

/-- A query of a good shape is answered on the empty store. -/
theorem answered_empty (h : queryShape parent query = some (selector, orders)) :
    (queryDocs codec (serviceOf []) parent query).isOk = true := by
  have hempty : (serviceOf [] : FirestoreService β).store.documents.toList.map Prod.snd = [] := rfl
  refine (queryDocs_isOk codec rfl parent query).mpr ⟨selector, orders, h, ?_, ?_⟩
  · rw [hempty]
    simp
  · rw [hempty]
    exact fun hr => absurd hr.2 (Nat.not_lt_zero _)

/-- An unsound filter is rejected with one document in the collection. -/
theorem RejectionIndependent.sound (hi : RejectionIndependent codec allowed parent query)
    (h : queryShape parent query = some (selector, orders)) {name : String} (ha : allowed name)
    (hmatch : matchesCollection name parent selector.collectionId selector.allDescendants = true) :
    ∀ filter ∈ query.where_, filter.sound = true := by
  intro filter hfilter
  by_contra hns
  obtain ⟨fields, hsorted, hfails⟩ := filter.exists_fails (Bool.eq_false_iff.mpr hns)
  let document : Document := ⟨name, fields, none, none⟩
  have hin : InMemory allowed (serviceOf [document] : FirestoreService β) :=
    serviceOf_inMemory fun d hd => by
      obtain rfl := List.mem_singleton.mp hd
      exact ⟨ha, hsorted⟩
  have hok := (hi _ _ (serviceOf_inMemory (by simp)) hin).symm.trans (answered_empty codec h)
  obtain ⟨selector', orders', h', hkeep, -⟩ := (queryDocs_isOk codec rfl parent query).mp hok
  obtain ⟨rfl, rfl⟩ := Prod.mk.inj (Option.some.inj (h'.symm.trans h))
  have hkept := hkeep document (scanned_serviceOf (by simp) (List.mem_singleton_self _))
  rw [Option.mem_def] at hfilter
  have hmatch' : matchesCollection document.name parent selector'.collectionId
    selector'.allDescendants = true := hmatch
  simp [keepsDocument, hmatch', hfilter, hfails document rfl] at hkept

/-- An unreadable projection is rejected on a store with a document to return. -/
theorem RejectionIndependent.returnsNone (hi : RejectionIndependent codec allowed parent query)
    (h : queryShape parent query = some (selector, orders))
    (hs : selectReadable query.select = false) :
    ReturnsNone allowed parent selector query orders := by
  intro docs hnodup hdocs hreturns
  have hin : InMemory allowed (serviceOf docs : FirestoreService β) :=
    serviceOf_inMemory fun d hd => (hdocs d hd).1
  have hok := (hi _ _ (serviceOf_inMemory (by simp)) hin).symm.trans (answered_empty codec h)
  obtain ⟨selector', orders', h', -, hproj⟩ := (queryDocs_isOk codec rfl parent query).mp hok
  obtain ⟨rfl, rfl⟩ := Prod.mk.inj (Option.some.inj (h'.symm.trans h))
  have hsub : docs ⊆ ((storeOf docs).documents.toList.map Prod.snd).filter
      (reaches parent selector' query orders') := fun d hd =>
    List.mem_filter.mpr ⟨scanned_serviceOf hnodup hd, (hdocs d hd).2⟩
  have hle := (List.subperm_of_subset (List.Nodup.of_map _ hnodup) hsub).length_le
  have hreadable := hproj ⟨hreturns.1, Nat.lt_of_lt_of_le hreturns.2 hle⟩
  rw [hs] at hreadable
  cases hreadable

/-- A data-independent query of a good shape is answered on every store. -/
theorem DataIndependent.answered (hd : DataIndependent allowed parent query)
    (h : queryShape parent query = some (selector, orders)) {service : FirestoreService β}
    (hin : InMemory allowed service) : (queryDocs codec service parent query).isOk = true := by
  have hstored : ∀ d ∈ service.store.documents.toList.map Prod.snd, allowed d.name ∧ d.KeySorted :=
    fun d hm => hin.stored d.name d (service.store.named.mem_scanned.mp hm)
  refine (queryDocs_isOk codec hin.memory parent query).mpr ⟨selector, orders, h, ?_⟩
  rcases hd selector orders h with hnone | ⟨hsound, hproj⟩
  · have hkeep : ∀ d ∈ service.store.documents.toList.map Prod.snd,
        keepsDocument parent selector query.where_ d = .ok false := by
      intro d hm
      simp [keepsDocument, hnone d.name (hstored d hm).1]
    refine ⟨fun d hm => by rw [hkeep d hm]; rfl, fun hr => absurd hr.2 ?_⟩
    rw [List.filter_eq_nil_iff.mpr, List.length_nil]
    · exact Nat.not_lt_zero _
    · intro d hm
      simp [reaches, hkeep d hm, Except.toOption]
  · refine ⟨fun d _ => ?_, fun hr => ?_⟩
    · unfold keepsDocument
      split
      · split
        · rename_i filter hfilter
          exact filter.sound_isOk (hsound filter hfilter)
        · rfl
      · rfl
    · rcases hproj with hreadable | hnone
      · exact hreadable
      · refine absurd hr (hnone _ ?_ fun d hm => ?_)
        · exact service.store.named.nodup_scanned.sublist (List.filter_sublist.map _)
        · obtain ⟨hm, hreach⟩ := List.mem_filter.mp hm
          exact ⟨hstored d hm, hreach⟩

/-- Whether a query is rejected is independent of the documents exactly when it fails a check
made whatever they are, when nothing can be in its collection, or when its filter is sound and
its projection is readable or never carried out. -/
theorem rejection_independent_iff (allowed : String → Prop) (parent : String)
    (query : StructuredQuery) :
    RejectionIndependent codec allowed parent query ↔ DataIndependent allowed parent query := by
  constructor
  · intro hi selector orders h
    by_cases hnone : ∀ name, allowed name →
        matchesCollection name parent selector.collectionId selector.allDescendants = false
    · exact .inl hnone
    · push Not at hnone
      obtain ⟨name, ha, hmatch⟩ := hnone
      refine .inr ⟨hi.sound codec h ha (Bool.ne_false_iff.mp hmatch), ?_⟩
      cases hs : selectReadable query.select with
      | true => exact .inl rfl
      | false => exact .inr (hi.returnsNone codec h hs)
  · intro hd service service' hin hin'
    cases h : queryShape parent query with
    | some shape => rw [hd.answered codec h hin, hd.answered codec h hin']
    | none =>
      have hrejected : ∀ service : FirestoreService β, service.persistence = none →
          (queryDocs codec service parent query).isOk = false := by
        intro service hm
        refine Bool.eq_false_iff.mpr fun hok => ?_
        obtain ⟨selector, orders, hshape, -⟩ := (queryDocs_isOk codec hm parent query).mp hok
        rw [h] at hshape
        cases hshape
      rw [hrejected service hin.memory, hrejected service' hin'.memory]

/-- A query on the sample items by a filter without an operator. -/
def unspecifiedOperator : StructuredQuery :=
  { collectionQuery "items" with
    where_ := some (.fieldFilter (some "rank") 0 (some (.nullValue 0))) }

/-- It is answered until some item has the field. -/
theorem rejected_once_stored :
    ¬ RejectionIndependent plainCodec (fun name => validateDocumentName name = .ok ())
      (sampleDatabase ++ "/documents") unspecifiedOperator := by
  intro h
  have hin : InMemory (fun name => validateDocumentName name = .ok ())
      (serviceOf [⟨sampleName sampleDatabase "a", [("rank", .nullValue 0)], none, none⟩] :
        FirestoreService Document) := by
    refine serviceOf_inMemory fun d hd => ?_
    obtain rfl := List.mem_singleton.mp hd
    exact ⟨by decide, Fields.KeySorted.nil.insert "rank" (by simp [Value.KeySorted])⟩
  have hsame := h (serviceOf []) _ (serviceOf_inMemory (by simp)) hin
  revert hsame
  decide

end Stores

end FirebaseEmu.Firestore
