import FirebaseEmu.Firestore.Ordering
import FirebaseEmu.Firestore.Tables
import FirebaseEmu.Firestore.Sample
import FirebaseEmu.Lib.Paging

namespace FirebaseEmu.Firestore
open Lib Std

theorem compareDocuments_nil (a b : Document) : compareDocuments [] a b = .eq := rfl

theorem firstUnequal_cons (c : Ordering) (cmps : List Ordering) :
    firstUnequal (c :: cmps) = c.then (firstUnequal cmps) := by
  cases c <;> rfl

theorem compareDocuments_cons (field : String) (desc : Bool) (orders : List OrderField)
    (a b : Document) : compareDocuments ((field, desc) :: orders) a b =
      (directed desc ((orderValue a field).compare (orderValue b field))).then
        (compareDocuments orders a b) :=
  firstUnequal_cons _ _

theorem directed_swap (desc : Bool) (c : Ordering) : directed desc c.swap = (directed desc c).swap := by
  cases desc <;> rfl

theorem directed_eq (desc : Bool) (c : Ordering) : directed desc c = .eq ↔ c = .eq := by
  cases desc <;> simp [directed]

theorem directed_chain (desc : Bool) (u v w : Value) :
    Chain (directed desc (u.compare v)) (directed desc (v.compare w))
      (directed desc (u.compare w)) := by
  cases desc with
  | false => exact Chain.of_trans u v w
  | true =>
    simp only [directed, ↓reduceIte, ← OrientedCmp.eq_swap]
    exact @Chain.of_trans Value (fun a b => b.compare a) _ u v w

/-- Mixed directions included, the documents are compared by a transitive order. -/
instance (orders : List OrderField) : TransCmp (compareDocuments orders) := by
  refine transCmp_of_chain (fun a b => ?_) fun a b c => ?_
  · induction orders with
    | nil => rfl
    | cons order orders ih =>
      rw [compareDocuments_cons, compareDocuments_cons, Ordering.swap_then, ← ih, ← directed_swap,
        ← OrientedCmp.eq_swap]
  · induction orders with
    | nil => exact ⟨by simp [compareDocuments_nil], by simp [compareDocuments_nil], fun _ _ => rfl⟩
    | cons order orders ih =>
      obtain ⟨field, desc⟩ := order
      simp only [compareDocuments_cons]
      exact (directed_chain _ _ _ _).and_then fun _ _ => ih

theorem compareDocuments_eq {orders : List OrderField} {a b : Document} :
    compareDocuments orders a b = .eq ↔
      ∀ o ∈ orders, (orderValue a o.1).compare (orderValue b o.1) = .eq := by
  induction orders with
  | nil => simp [compareDocuments_nil]
  | cons order orders ih =>
    rw [compareDocuments_cons, Ordering.then_eq_eq, directed_eq, ih, List.forall_mem_cons]

/-- The name is always among the orders. -/
theorem effectiveOrders_name (orders : List OrderField) (filter : Option Filter) :
    ∃ desc, ("__name__", desc) ∈ effectiveOrders orders filter := by
  unfold effectiveOrders
  dsimp only
  split
  · rename_i h
    obtain ⟨⟨field, desc⟩, hm, he⟩ := List.any_eq_true.mp h
    obtain rfl : field = "__name__" := by simpa using he
    exact ⟨desc, hm⟩
  · exact ⟨_, List.mem_append_right _ List.mem_cons_self⟩

theorem orderValue_name (doc : Document) : orderValue doc "__name__" = .referenceValue doc.name :=
  rfl

/-- Documents that tie under the effective orders have one name. -/
theorem name_eq_of_tie {orders : List OrderField} {filter : Option Filter} {a b : Document}
    (h : compareDocuments (effectiveOrders orders filter) a b = .eq) : a.name = b.name := by
  obtain ⟨desc, hm⟩ := effectiveOrders_name orders filter
  have hv := compareDocuments_eq.mp h _ hm
  rw [orderValue_name, orderValue_name] at hv
  exact LawfulEqOrd.eq_of_compare hv

/-- The cursor of a client that has seen a document: its values under the orders. -/
def cursorAfter (orders : List OrderField) (doc : Document) : Option Cursor :=
  (orders.mapM fun o => fieldValue doc o.1).map fun values => ⟨values, false⟩

theorem cursorAfter_eq {orders : List OrderField} {doc : Document}
    (h : ∀ o ∈ orders, (fieldValue doc o.1).isSome) :
    cursorAfter orders doc = some ⟨orders.map fun o => orderValue doc o.1, false⟩ := by
  unfold cursorAfter
  rw [Option.map_eq_some_iff]
  refine ⟨_, ?_, rfl⟩
  induction orders with
  | nil => rfl
  | cons order orders ih =>
    rw [List.forall_mem_cons] at h
    obtain ⟨v, hv⟩ := Option.isSome_iff_exists.mp h.1
    rw [List.mapM_cons, hv, ih h.2]
    simp [orderValue, hv]

/-- Comparing with the cursor of a document is comparing with the document. -/
theorem compareCursor_eq (orders : List OrderField) (doc d : Document) :
    compareCursor orders doc (orders.map fun o => orderValue d o.1) =
      compareDocuments orders doc d := by
  unfold compareCursor compareDocuments
  congr 1
  induction orders with
  | nil => rfl
  | cons order orders ih =>
    rw [List.map_cons, List.zip_cons_cons, List.map_cons, List.map_cons, ih]

/-- No two of the documents tie. -/
def Distinguishes (orders : List OrderField) (docs : List Document) : Prop :=
  ∀ a ∈ docs, ∀ b ∈ docs, compareDocuments orders a b = .eq → a = b

theorem Consistent.distinguishes {docs : List Document} (h : Consistent docs)
    (orders : List OrderField) (filter : Option Filter) :
    Distinguishes (effectiveOrders orders filter) docs :=
  fun a ha b hb htie => h a ha b hb (name_eq_of_tie htie)

section
variable {orders : List OrderField} {docs docs' : List Document}

theorem Distinguishes.mono (h : Distinguishes orders docs) (hs : docs' ⊆ docs) :
    Distinguishes orders docs' :=
  fun a ha b hb => h a (hs ha) b (hs hb)

theorem Distinguishes.strictTotalOrder (h : Distinguishes orders docs) :
    IsStrictTotalOrder { d // d ∈ docs } fun a b => compareDocuments orders a.1 b.1 = .lt where
  trichotomous a b hab hba := by
    apply Subtype.ext
    apply h a.1 a.2 b.1 b.2
    cases hc : compareDocuments orders a.1 b.1 with
    | lt => exact absurd hc hab
    | eq => rfl
    | gt => exact absurd (OrientedCmp.lt_of_gt hc) hba
  irrefl a h := by
    have hself : compareDocuments orders a.1 a.1 = .eq := ReflCmp.compare_self
    rw [hself] at h
    cases h
  trans _ _ _ := TransCmp.lt_trans

instance (orders : List OrderField) :
    Std.Total fun a b : Document => (compareDocuments orders a b).isLE = true where
  total a b := by
    cases hc : compareDocuments orders a b with
    | gt =>
      rw [OrientedCmp.lt_of_gt hc]
      exact .inr rfl
    | _ => exact .inl rfl

instance (orders : List OrderField) :
    IsTrans Document fun a b => (compareDocuments orders a b).isLE = true where
  trans _ _ _ := TransCmp.isLE_trans

theorem mem_sortedDocuments {d : Document} : d ∈ sortedDocuments orders docs ↔
    d ∈ docs ∧ ∀ o ∈ orders, (fieldValue d o.1).isSome = true := by
  rw [sortedDocuments, List.mem_insertionSort, List.mem_filter, List.all_eq_true]

theorem sortedDocuments_pairwise (orders : List OrderField) (docs : List Document) :
    (sortedDocuments orders docs).Pairwise fun a b => (compareDocuments orders a b).isLE = true :=
  List.pairwise_insertionSort _ _

/-- Distinct documents stand in strictly increasing order. -/
theorem Distinguishes.sorted_strict (h : Distinguishes orders docs) (hn : docs.Nodup) :
    (sortedDocuments orders docs).Pairwise fun a b => compareDocuments orders a b = .lt := by
  have hnodup : (sortedDocuments orders docs).Nodup :=
    (List.perm_insertionSort _ _).nodup_iff.mpr (hn.filter _)
  refine ((sortedDocuments_pairwise orders docs).and hnodup).imp_of_mem ?_
  rintro a b ha hb ⟨hle, hne⟩
  cases hc : compareDocuments orders a b with
  | lt => rfl
  | eq =>
    have heq := h a (mem_sortedDocuments.mp ha).1 b (mem_sortedDocuments.mp hb).1 hc
    exact absurd heq hne
  | gt =>
    rw [hc] at hle
    cases hle

/-- The order of the scan does not show. -/
theorem Distinguishes.sorted_perm (h : Distinguishes orders docs) (hp : docs'.Perm docs) :
    sortedDocuments orders docs' = sortedDocuments orders docs := by
  have hperm : (sortedDocuments orders docs').Perm (sortedDocuments orders docs) :=
    (List.perm_insertionSort _ _).trans ((hp.filter _).trans (List.perm_insertionSort _ _).symm)
  refine hperm.eq_of_pairwise ?_ (sortedDocuments_pairwise orders docs')
    (sortedDocuments_pairwise orders docs)
  intro a b ha hb hab hba
  have ha' := hp.subset (mem_sortedDocuments.mp ha).1
  exact h a ha' b (mem_sortedDocuments.mp hb).1 (OrientedCmp.isLE_antisymm hab hba)

/-- The cursor of a document lets through exactly what stands after it. -/
theorem applyCursor_after {before rest : List Document} {d : Document}
    (hp : (before ++ d :: rest).Pairwise fun a b => compareDocuments orders a b = .lt) :
    applyCursor orders true (some ⟨orders.map fun o => orderValue d o.1, false⟩)
      (before ++ d :: rest) = .ok rest := by
  rw [List.pairwise_append, List.pairwise_cons] at hp
  obtain ⟨-, ⟨hrest, -⟩, hbefore⟩ := hp
  have hself : compareDocuments orders d d = .eq := ReflCmp.compare_self
  have hb : before.filter (fun doc => (compareDocuments orders doc d).isGT) = [] := by
    rw [List.filter_eq_nil_iff]
    intro a ha
    simp [hbefore a ha d List.mem_cons_self]
  have hr : rest.filter (fun doc => (compareDocuments orders doc d).isGT) = rest := by
    rw [List.filter_eq_self]
    intro b hb
    simp [OrientedCmp.gt_of_lt (hrest b hb)]
  simp [applyCursor, compareCursor_eq, hself, hb, hr]

end

/-- Whether a projection succeeds does not depend on the document. -/
theorem projectFields_isOk (select : List String) (source fields source' fields' : Fields) :
    (projectFields source fields select).isOk = (projectFields source' fields' select).isOk := by
  induction select generalizing fields fields' with
  | nil => rfl
  | cons field select ih =>
    unfold projectFields
    split
    · cases fieldPath field with
      | error e => rfl
      | ok path => exact ih _ _
    · exact ih _ _

theorem projectDocument_isOk (select : Option (List String)) (doc doc' : Document) :
    (projectDocument select doc).isOk = (projectDocument select doc').isOk := by
  cases select with
  | none => rfl
  | some select =>
    have h := projectFields_isOk select doc.fields [] doc'.fields []
    simp only [projectDocument]
    cases hp : projectFields doc.fields [] select <;>
      cases hp' : projectFields doc'.fields [] select <;> simp only [hp, hp'] at h ⊢ <;>
      first | rfl | cases h

/-- If a first part is projected then the whole list is. -/
theorem projectAll {select : Option (List String)} {docs part : List Document} {k : Nat}
    (hk : 0 < k) (h : (docs.take k).mapM (projectDocument select) = .ok part) :
    ∃ full : List Document,
      docs.map (projectDocument select) = full.map .ok ∧ part = full.take k := by
  cases docs with
  | nil =>
    rw [List.take_nil] at h
    obtain rfl := Except.ok.inj h
    exact ⟨[], rfl, List.take_nil.symm⟩
  | cons d docs =>
    rw [mapM_eq_allOk, allOk_eq_ok] at h
    have hd : (projectDocument select d).isOk = true := by
      cases k with
      | zero => omega
      | succ k =>
        cases part with
        | nil => cases h
        | cons p part =>
          rw [List.take_succ_cons, List.map_cons, List.map_cons, List.cons.injEq] at h
          rw [h.1]
          rfl
    cases hall : allOk ((d :: docs).map (projectDocument select)) with
    | error e =>
      have hok : (allOk ((d :: docs).map (projectDocument select))).isOk = true := by
        rw [allOk_isOk]
        intro outcome ho
        obtain ⟨doc, -, rfl⟩ := List.mem_map.mp ho
        rw [projectDocument_isOk select doc d]
        exact hd
      rw [hall] at hok
      cases hok
    | ok full =>
      rw [allOk_eq_ok] at hall
      refine ⟨full, hall, ?_⟩
      have hmap : part.map (Except.ok (ε := Status)) = (full.take k).map .ok := by
        rw [← h, List.map_take, hall, List.map_take]
      exact List.map_injective_iff.mpr (fun _ _ => Except.ok.inj) hmap

variable {β : Type} (codec : DocumentCodec β)

/-- The effective orders of a query. -/
def queryOrders (query : StructuredQuery) : Except Status (List OrderField) :=
  (explicitOrders query.orderBy).map fun explicit => effectiveOrders explicit query.where_

/-- The query for one page of at most `n` documents. -/
def pageQuery (query : StructuredQuery) (n : Int) (cursor : Option Cursor) : StructuredQuery :=
  { query with limit := some n, startAt := cursor }

def askPage (service : FirestoreService β) (parent : String) (query : StructuredQuery) (n : Int)
    (cursor : Option Cursor) : Except Status (List Document) :=
  queryDocs codec service parent (pageQuery query n cursor)

/-- The cursor after a returned document, from the document stored under its name. -/
def nextCursor (service : FirestoreService β) (orders : List OrderField) (last : Document) :
    Option Cursor :=
  match documents codec service [last.name] with
  | .ok [stored] => cursorAfter orders stored
  | _ => none

/-- An unlimited query and its pages. `full` is the whole result; the unlimited query itself
takes at most `i32::MAX` of it. -/
structure PagesTile (service : FirestoreService β) (parent : String) (query : StructuredQuery)
    (docs : List Document) (selector : CollectionSelector) (scanned : List Document)
    (orders : List OrderField) (retained full : List Document) : Prop where
  selected : querySelector query = .ok selector
  scan : (databaseFromResource parent).bind (scannedDocuments codec service) = .ok scanned
  ordered : queryOrders query = .ok orders
  kept : (matchingDocuments parent selector query.where_ scanned).map (fun docs =>
    docs.filter fun d => orders.all fun (field, _) => (fieldValue d field).isSome) = .ok retained
  unwraps : ∀ d ∈ retained, ∀ o ∈ orders, (fieldValue d o.1).isSome = true
  strict : IsStrictTotalOrder { d // d ∈ retained } fun a b =>
    compareDocuments orders a.1 b.1 = .lt
  projected : (retained.insertionSort fun a b => (compareDocuments orders a b).isLE).mapM
    (projectDocument query.select) = .ok full
  answer : docs = full.take (2 ^ 31 - 1)
  scanOrder : ∀ documents, documents.Perm scanned →
    evaluateQuery documents parent selector query = .ok docs
  pages : ∀ n : Int, 1 ≤ n →
    (∃ pages, Pages (askPage codec service parent query n) (nextCursor codec service orders)
      none pages) ∧
    ∀ pages, Pages (askPage codec service parent query n) (nextCursor codec service orders)
      none pages → pages.flatten = full

variable {codec}

theorem matchingDocuments_perm {parent : String} {selector : CollectionSelector}
    {filter : Option Filter} {documents documents' docs : List Document}
    (h : matchingDocuments parent selector filter documents = .ok docs)
    (hp : documents'.Perm documents) :
    ∃ docs', matchingDocuments parent selector filter documents' = .ok docs' ∧
      docs'.Perm docs := by
  obtain ⟨hok, rfl⟩ := matchingDocuments_ok.mp h
  exact ⟨_, matchingDocuments_ok.mpr ⟨fun d hd => hok d (hp.subset hd), rfl⟩, hp.filter _⟩

theorem applyCursor_none (orders : List OrderField) (start : Bool) (docs : List Document) :
    applyCursor orders start none docs = .ok docs := rfl

section
variable {parent : String} {query : StructuredQuery} {selector : CollectionSelector}

theorem querySelector_page (hlimit : query.limit = none) (hs : querySelector query = .ok selector)
    {n : Int} (hn : 1 ≤ n) (cursor : Option Cursor) :
    querySelector (pageQuery query n cursor) = .ok selector := by
  have hneg : ¬ n < 0 := by omega
  rw [← hs]
  simp only [querySelector, pageQuery, hlimit, Option.any_some, Option.any_none, hneg, decide_false]
  rfl

/-- One page, from the sorted documents its cursor lets through. -/
theorem evaluateQuery_page {scanned matched rest : List Document} {explicit : List OrderField}
    (hoffset : query.offset = 0) (hend : query.endAt = none)
    (hm : matchingDocuments parent selector query.where_ scanned = .ok matched)
    (he : explicitOrders query.orderBy = .ok explicit) {n : Int} {cursor : Option Cursor}
    (hc : applyCursor (effectiveOrders explicit query.where_) true cursor
      (sortedDocuments (effectiveOrders explicit query.where_) matched) = .ok rest) :
    evaluateQuery scanned parent selector (pageQuery query n cursor) =
      (rest.take n.toNat).mapM (projectDocument query.select) := by
  have hended : applyCursor (effectiveOrders explicit query.where_) false
      (pageQuery query n cursor).endAt rest = .ok rest := by
    rw [pageQuery, hend]
    rfl
  have hpage : evaluateQuery scanned parent selector (pageQuery query n cursor) = _ :=
    evaluateQuery_eq hm he hc hended
  rw [hpage, pageQuery, hoffset]
  rfl

end

/-- The pages of a query tile its projected sorted documents. -/
theorem tiles_of_sorted {service : FirestoreService β} {table : Documents} (hn : Named table)
    (ht : Holds codec service table) {parent database : String} {query : StructuredQuery}
    {selector : CollectionSelector} {scanned matched full : List Document}
    {explicit : List OrderField} (hoffset : query.offset = 0) (hlimit : query.limit = none)
    (hend : query.endAt = none) (hs : querySelector query = .ok selector)
    (hdb : databaseFromResource parent = .ok database)
    (hscan : scannedDocuments codec service database = .ok scanned)
    (hm : matchingDocuments parent selector query.where_ scanned = .ok matched)
    (he : explicitOrders query.orderBy = .ok explicit)
    (hfull : (sortedDocuments (effectiveOrders explicit query.where_) matched).map
      (projectDocument query.select) = full.map .ok) {n : Int} (h1 : 1 ≤ n) :
    Tiles (askPage codec service parent query n)
      (nextCursor codec service (effectiveOrders explicit query.where_)) full n.toNat := by
  have hstored := ht.scanned_stored hn hscan
  have hsub := matchingDocuments_subset hm
  have hnodup : matched.Nodup := by
    rw [matchingDocuments_ok] at hm
    rw [← hm.2]
    exact (List.Nodup.of_map _ (ht.scanned_nodup hn hscan)).filter _
  have hdist : Distinguishes (effectiveOrders explicit query.where_) matched :=
    ((consistent_of_stored hstored).distinguishes explicit query.where_).mono hsub
  have hstrict := hdist.sorted_strict hnodup
  have hmem : ∀ d ∈ sortedDocuments (effectiveOrders explicit query.where_) matched,
      table[d.name]? = some d ∧
        ∀ o ∈ effectiveOrders explicit query.where_, (fieldValue d o.1).isSome = true := fun d hd =>
    ⟨hstored d (hsub (mem_sortedDocuments.mp hd).1), (mem_sortedDocuments.mp hd).2⟩
  have hask : ∀ cursor rest, applyCursor (effectiveOrders explicit query.where_) true cursor
      (sortedDocuments (effectiveOrders explicit query.where_) matched) = .ok rest →
      askPage codec service parent query n cursor =
        (rest.take n.toNat).mapM (projectDocument query.select) := by
    intro cursor rest hc
    rw [askPage, queryDocs_eq, querySelector_page hlimit hs h1, hdb, Except.bind, Except.bind,
      hscan]
    exact evaluateQuery_page hoffset hend hm he hc
  generalize effectiveOrders explicit query.where_ = orders at *
  generalize sortedDocuments orders matched = sorted at *
  refine ⟨?_, fun before d rest hsplit => ?_⟩
  · rw [hask none sorted (applyCursor_none _ _ _), mapM_eq_allOk, allOk_eq_ok, List.map_take, hfull,
      List.map_take]
  · rw [hsplit, List.map_append, List.map_cons] at hfull
    obtain ⟨before', tail, rfl, -, htail⟩ := List.map_eq_append_iff.mp hfull
    obtain ⟨d', rest', rfl, hd, hrest⟩ := List.map_eq_cons_iff.mp htail
    obtain ⟨hd', hsome⟩ := hmem d' (List.mem_append_right _ List.mem_cons_self)
    refine ⟨⟨orders.map fun o => orderValue d' o.1, false⟩, ?_, ?_⟩
    · rw [nextCursor, projectDocument_name hd, ht.documents_single hd']
      exact cursorAfter_eq hsome
    · rw [hask _ rest' (applyCursor_after hstrict), mapM_eq_allOk, allOk_eq_ok, List.map_take,
        hrest, List.map_take]

/-- An accepted query without offset, cursors or limit is tiled by its pages, whatever the
filter and the orders. -/
theorem pages_tile {service : FirestoreService β} (h : Tabled codec service) {parent : String}
    {query : StructuredQuery} (hoffset : query.offset = 0) (hlimit : query.limit = none)
    (hstart : query.startAt = none) (hend : query.endAt = none) {docs : List Document}
    (hd : queryDocs codec service parent query = .ok docs) :
    ∃ selector scanned orders retained full,
      PagesTile codec service parent query docs selector scanned orders retained full := by
  obtain ⟨table, hn, ht⟩ := h
  obtain ⟨selector, database, scanned, hs, hdb, hscan, heval⟩ := queryDocs_ok hd
  obtain ⟨matched, explicit, started, ended, hm, he, hstarted, hended, hp⟩ := evaluateQuery_ok heval
  rw [hstart, applyCursor_none] at hstarted
  obtain rfl := Except.ok.inj hstarted
  rw [hend, applyCursor_none] at hended
  obtain rfl := Except.ok.inj hended
  rw [hoffset, hlimit] at hp
  obtain ⟨full, hfull, hdocs⟩ := projectAll (by decide) hp
  have hcons := consistent_of_stored (ht.scanned_stored hn hscan)
  have hdist := (hcons.distinguishes explicit query.where_).mono (matchingDocuments_subset hm)
  refine ⟨selector, scanned, effectiveOrders explicit query.where_,
    matched.filter fun d => (effectiveOrders explicit query.where_).all fun (field, _) =>
      (fieldValue d field).isSome, full, ⟨hs, ?_, ?_, ?_, ?_, ?_, ?_, hdocs, ?_, ?_⟩⟩
  · rw [hdb]
    exact hscan
  · rw [queryOrders, he]
    rfl
  · rw [hm]
    rfl
  · intro d hmem o ho
    exact List.all_eq_true.mp (List.mem_filter.mp hmem).2 o ho
  · exact (hdist.mono (List.filter_subset_self _)).strictTotalOrder
  · rw [mapM_eq_allOk, allOk_eq_ok]
    exact hfull
  · intro documents hperm
    obtain ⟨matched', hm', hperm'⟩ := matchingDocuments_perm hm hperm
    have hstart' : applyCursor (effectiveOrders explicit query.where_) true query.startAt
        (sortedDocuments (effectiveOrders explicit query.where_) matched') =
        .ok (sortedDocuments (effectiveOrders explicit query.where_) matched) := by
      rw [hstart, hdist.sorted_perm hperm']
      rfl
    have hend' : applyCursor (effectiveOrders explicit query.where_) false query.endAt
        (sortedDocuments (effectiveOrders explicit query.where_) matched) =
        .ok (sortedDocuments (effectiveOrders explicit query.where_) matched) := by
      rw [hend]
      rfl
    rw [evaluateQuery_eq hm' he hstart' hend', hoffset, hlimit]
    exact hp
  · intro n h1
    have htiles := tiles_of_sorted hn ht hoffset hlimit hend hs hdb hscan hm he hfull h1
    exact ⟨htiles.exists_pages (by omega), fun pages hpages => htiles.flatten_eq (by omega) hpages⟩

def sampleItem (id : String) (rank : Value) : Write :=
  sampleSet (sampleName sampleDatabase id) [("rank", rank)]

/-- Items whose ranks are of several types and sometimes tie. -/
def sampleItems : FirestoreService Document :=
  run plainCodec sampleMemory [⟨.commit ⟨sampleDatabase, [sampleItem "a" (.integerValue 1),
    sampleItem "b" (.stringValue "x"), sampleItem "c" (.doubleValue (.ofInt 1)),
    sampleItem "d" (.doubleValue .nan)], []⟩, sampleTime 1, []⟩]

def sampleRanking : StructuredQuery :=
  ⟨none, [⟨"items", false⟩], none, [⟨some "rank", 2⟩], none, 0, none, none⟩

theorem pages_tile_sample : ∃ docs,
    docs.map Document.name = ["b", "c", "a", "d"].map (sampleName sampleDatabase) ∧
    ∃ selector scanned orders retained full, PagesTile plainCodec sampleItems
      (sampleDatabase ++ "/documents") sampleRanking docs selector scanned orders retained full := by
  have hnames : (queryDocs plainCodec sampleItems (sampleDatabase ++ "/documents")
      sampleRanking).toOption.map (fun docs => docs.map Document.name) =
        some (["b", "c", "a", "d"].map (sampleName sampleDatabase)) := by
    decide +kernel
  obtain ⟨docs, hdocs, hn⟩ := Option.map_eq_some_iff.mp hnames
  have hd : queryDocs plainCodec sampleItems (sampleDatabase ++ "/documents") sampleRanking =
      .ok docs := by
    cases hq : queryDocs plainCodec sampleItems (sampleDatabase ++ "/documents") sampleRanking with
    | error e =>
      rw [hq] at hdocs
      cases hdocs
    | ok docs' =>
      rw [hq] at hdocs
      rw [Option.some.inj hdocs]
  exact ⟨docs, hn, pages_tile ((tabled_memory plainCodec rfl).run _) rfl rfl rfl rfl hd⟩

end FirebaseEmu.Firestore
