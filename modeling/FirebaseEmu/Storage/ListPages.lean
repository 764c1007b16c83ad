import FirebaseEmu.Lib.Results
import FirebaseEmu.Storage.Backend
import FirebaseEmu.Storage.Grouping

namespace FirebaseEmu.Storage
open Lib Std

namespace Backend
variable {μ π : Type} (codec : StorageCodec μ)

def matching (backend : Backend μ π) (bucket pre : String) :
    Except PersistenceError (List StoredObject) :=
  match backend with
  | .memory data => .ok (data.matching bucket pre)
  | .persistent store => store.matching codec bucket pre

/-- `list_objects`; `none` is a panic. -/
def listObjects (backend : Backend μ π) (bucket : String) (query : ListQuery) : Option Reply :=
  let pre := query.pre.getD ""
  let delimiter := query.delimiter.filter fun value => !value.isEmpty
  match backend.matching codec bucket pre with
  | .ok matching => listResponseChecked matching pre delimiter query.pageToken query.maxResults
  | .error error => some (persistenceFailure error)

/-- What the backend holds in a bucket: these objects, in some order. -/
def Holds (backend : Backend μ π) (bucket : String) (objects : List StoredObject) : Prop :=
  match backend with
  | .memory data =>
    ((data.objects.toList.map Prod.snd).filter fun object => object.bucket == bucket).Perm objects
  | .persistent store => ∃ decoded, ((store.tables.rows.toList.filter fun entry =>
      entry.1.bucket == bucket).mapM fun entry => storedObject codec entry.1 entry.2) =
        .ok decoded ∧ decoded.Perm objects

end Backend

/-- Pages asked for one after another, each with the token of the page before, until a page has
none. -/
inductive Walk (ask : Option String → Option Reply) : Option String → List Json → Prop where
  | last {token : Option String} {page : Json} (asked : ask token = some (.listing page))
      (ends : page.get "nextPageToken" = .null) : Walk ask token [page]
  | more {token : Option String} {next : String} {page : Json} {pages : List Json}
      (asked : ask token = some (.listing page)) (goes : page.get "nextPageToken" = .string next)
      (tail : Walk ask (some next) pages) : Walk ask token (page :: pages)

def elements : Json → List Json
  | .array values => values
  | _ => []

def itemsOf (page : Json) : List Json := elements (page.get "items")

def prefixesOf (page : Json) : List Json := elements (page.get "prefixes")

/-- The text stands for an object of that name. -/
def Represents (pre : String) (delimiter : Option String) (name text : String) : Prop :=
  ∃ mark, delimiter = some mark ∧ mark ≠ "" ∧ Cut pre mark name text

/-- Items and common prefixes of the objects with a prefix: each once and in order, the items
being the objects that no common prefix stands for. -/
structure Groups (objects : List StoredObject) (pre : String) (delimiter : Option String)
    (items : List StoredObject) (prefixes : List String) : Prop where
  items_sorted : items.Pairwise fun a b => a.name < b.name
  prefixes_sorted : prefixes.Pairwise (· < ·)
  mem_items : ∀ object, object ∈ items ↔ object ∈ objects ∧ startsWith object.name pre = true ∧
    ∀ text, ¬ Represents pre delimiter object.name text
  mem_prefixes : ∀ text, text ∈ prefixes ↔ ∃ object ∈ objects,
    startsWith object.name pre = true ∧ Represents pre delimiter object.name text
  grouped : ∀ object ∈ objects, startsWith object.name pre = true →
    object ∈ items ∨ ∃ text ∈ prefixes, Represents pre delimiter object.name text ∧
      ∀ other, Represents pre delimiter object.name other → other = text

/-- No token makes a listing panic, and the pages from the first on, which come to an end, are the
items and the common prefixes. -/
structure GroupsAndPages (ask : Option String → Option Reply) (objects : List StoredObject)
    (pre : String) (delimiter : Option String) : Prop where
  safe : ∀ token, ask token ≠ none
  complete : ∃ pages items prefixes, Walk ask none pages ∧
    Groups objects pre delimiter items prefixes ∧
    pages.flatMap itemsOf = items.map objectJson ∧
    pages.flatMap prefixesOf = prefixes.map Json.string

section pages
variable {ask : Option String → Option Reply} {entries : List (String × Option StoredObject)}
  {size : Nat}

theorem decodeOffset_encodeOffset {offset : Nat} (h : offset ≤ usizeMax) :
    decodeOffset (encodeOffset offset) = some offset := by
  have htext : ofUtf8 (textBytes (toString offset)) = some (toString offset) :=
    ofUtf8_eq_some.mpr rfl
  rw [decodeOffset, encodeOffset, Base64.decode_encode, Option.bind_some, htext, Option.bind_some,
    parseUsize_toString h]

theorem listJson_get (page : List (String × Option StoredObject)) (token : Option String) :
    (listJson objectJson page token).get "items" =
        .array ((page.filterMap Prod.snd).map objectJson) ∧
      (listJson objectJson page token).get "prefixes" =
        .array ((page.filter fun entry => entry.2.isNone).map fun entry => .string entry.1) ∧
      (listJson objectJson page token).get "nextPageToken" =
        (token.map Json.string).getD .null := by
  cases token <;> refine ⟨rfl, rfl, rfl⟩

/-- The pages from a place on are the entries from there on. -/
theorem walk_entries (ha : ∀ token, ask token = some (pageFrom entries size (startOf token)))
    (hsize : 0 < size) (hlen : entries.length ≤ usizeMax) {token : Option String} {offset : Nat}
    (hs : startOf token = some offset) :
    ∃ pages, Walk ask token pages ∧
      pages.flatMap itemsOf = ((entries.drop offset).filterMap Prod.snd).map objectJson ∧
      pages.flatMap prefixesOf = ((entries.drop offset).filter fun entry => entry.2.isNone).map
        fun entry => .string entry.1 := by
  induction hleft : entries.length - offset using Nat.strong_induction_on
    generalizing token offset with
  | _ left ih =>
    have hasked := ha token
    rw [hs, pageFrom] at hasked
    by_cases hmore : offset + size < entries.length
    · rw [if_pos hmore] at hasked
      obtain ⟨hitems, hprefixes, hnext⟩ := listJson_get ((entries.drop offset).take size)
        (some (encodeOffset (offset + size)))
      have hplace : startOf (some (encodeOffset (offset + size))) = some (offset + size) :=
        decodeOffset_encodeOffset (by omega)
      obtain ⟨pages, hwalk, hi, hp⟩ := ih _ (by omega) hplace rfl
      have hsplit : entries.drop offset =
          (entries.drop offset).take size ++ entries.drop (offset + size) := by
        rw [← List.drop_drop, List.take_append_drop]
      refine ⟨_, .more hasked hnext hwalk, ?_, ?_⟩
      · rw [List.flatMap_cons, hi, itemsOf, hitems, hsplit, List.filterMap_append, List.map_append,
          ← hsplit]
        rfl
      · rw [List.flatMap_cons, hp, prefixesOf, hprefixes, hsplit, List.filter_append,
          List.map_append, ← hsplit]
        rfl
    · rw [if_neg hmore] at hasked
      obtain ⟨hitems, hprefixes, hnext⟩ := listJson_get ((entries.drop offset).take size) none
      have hall : (entries.drop offset).take size = entries.drop offset :=
        List.take_of_length_le (by rw [List.length_drop]; omega)
      refine ⟨_, .last hasked hnext, ?_, ?_⟩
      · rw [List.flatMap_singleton, itemsOf, hitems, hall]
        rfl
      · rw [List.flatMap_singleton, prefixesOf, hprefixes, hall]
        rfl

end pages

section groups
variable {matching : List StoredObject} {pre : String} {delimiter : Option String}

theorem represents_iff (hd : ∀ text, delimiter = some text → text ≠ "") {name text : String}
    (hp : startsWith name pre = true) :
    Represents pre delimiter name text ↔ commonPrefix pre delimiter name = some text := by
  cases delimiter with
  | none => simp [Represents, commonPrefix]
  | some mark =>
    rw [commonPrefix_eq_some hp]
    constructor
    · rintro ⟨mark', he, -, hcut⟩
      cases he
      exact hcut
    · intro hcut
      exact ⟨mark, rfl, hd mark rfl, hcut⟩

theorem mem_listEntries_item {key : String} {object : StoredObject} :
    (key, some object) ∈ listEntries pre delimiter matching ↔
      object ∈ matching ∧ commonPrefix pre delimiter object.name = none ∧ key = object.name := by
  simp only [listEntries, List.mem_mergeSort, List.mem_append, List.mem_map, List.mem_filter,
    Prod.mk.injEq, Option.some.injEq, Option.isNone_iff_eq_none, reduceCtorEq, and_false,
    exists_false, or_false]
  constructor
  · rintro ⟨other, ⟨hm, hc⟩, hk, rfl⟩
    exact ⟨hm, hc, hk.symm⟩
  · rintro ⟨hm, hc, hk⟩
    exact ⟨object, ⟨hm, hc⟩, hk.symm, rfl⟩

theorem mem_listEntries_cut {text : String} :
    (text, none) ∈ listEntries pre delimiter matching ↔
      ∃ object ∈ matching, commonPrefix pre delimiter object.name = some text := by
  simp only [listEntries, List.mem_mergeSort, List.mem_append, List.mem_map, Prod.mk.injEq,
    reduceCtorEq, and_false, exists_false, false_or, and_true, exists_eq_right, List.mem_eraseDups,
    List.mem_filterMap]

/-- Entries are in order, and no two of them have one name. -/
theorem listEntries_sorted (hn : (matching.map StoredObject.name).Nodup)
    (hm : ∀ object ∈ matching, startsWith object.name pre = true) :
    (listEntries pre delimiter matching).Pairwise fun a b => a.1 < b.1 := by
  unfold listEntries
  refine @mergeSort_sorted _ _ _ Prod.fst _ ?_
  rw [List.map_append, List.map_map, List.map_map, List.nodup_append]
  refine ⟨?_, ?_, ?_⟩
  · exact hn.sublist ((List.filter_sublist).map StoredObject.name)
  · simpa [Function.comp_def] using nodup_eraseDups
      (matching.filterMap fun object => commonPrefix pre delimiter object.name)
  · -- a common prefix has a delimiter behind the prefix, and the name of an item has none
    intro name hname text htext he
    obtain ⟨object, hobject, rfl⟩ := List.mem_map.mp hname
    obtain ⟨text', htext', rfl⟩ := List.mem_map.mp htext
    obtain ⟨other, hother, hcut⟩ := List.mem_filterMap.mp (List.mem_eraseDups.mp htext')
    obtain ⟨-, hnone⟩ := List.mem_filter.mp hobject
    cases delimiter with
    | none => cases hcut
    | some mark =>
      obtain ⟨before, after, -, rfl, -⟩ := (commonPrefix_eq_some (hm other hother)).mp hcut
      have hsome := commonPrefix_ne_none pre before mark ""
      rw [String.append_empty] at hsome
      simp only [Function.comp_apply] at he
      rw [he, Option.isNone_iff_eq_none] at hnone
      exact hsome hnone

/-- The entries are the items and the common prefixes. -/
theorem listEntries_groups {objects : List StoredObject}
    (hd : ∀ text, delimiter = some text → text ≠ "") (hn : (matching.map StoredObject.name).Nodup)
    (hm : ∀ object, object ∈ matching ↔ object ∈ objects ∧ startsWith object.name pre = true) :
    Groups objects pre delimiter ((listEntries pre delimiter matching).filterMap Prod.snd)
      (((listEntries pre delimiter matching).filter fun entry => entry.2.isNone).map
        Prod.fst) := by
  have hstarts : ∀ object ∈ matching, startsWith object.name pre = true :=
    fun object h => ((hm object).mp h).2
  have hsorted : (listEntries pre delimiter matching).Pairwise fun a b => a.1 < b.1 :=
    listEntries_sorted hn hstarts
  have hitems : ∀ object, object ∈ (listEntries pre delimiter matching).filterMap Prod.snd ↔
      object ∈ objects ∧ startsWith object.name pre = true ∧
        ∀ text, ¬ Represents pre delimiter object.name text := by
    intro object
    rw [List.mem_filterMap]
    constructor
    · rintro ⟨⟨key, value⟩, he, rfl⟩
      obtain ⟨hmatch, hnone, -⟩ := mem_listEntries_item.mp he
      obtain ⟨hobject, hp⟩ := (hm object).mp hmatch
      refine ⟨hobject, hp, fun text ht => ?_⟩
      rw [(represents_iff hd hp).mp ht] at hnone
      cases hnone
    · rintro ⟨hobject, hp, hnone⟩
      refine ⟨(object.name, some object), mem_listEntries_item.mpr ⟨(hm object).mpr ⟨hobject, hp⟩,
        ?_, rfl⟩, rfl⟩
      cases hc : commonPrefix pre delimiter object.name with
      | none => rfl
      | some text => exact absurd ((represents_iff hd hp).mpr hc) (hnone text)
  have hprefixes : ∀ text, text ∈ ((listEntries pre delimiter matching).filter fun entry =>
      entry.2.isNone).map Prod.fst ↔ ∃ object ∈ objects, startsWith object.name pre = true ∧
        Represents pre delimiter object.name text := by
    intro text
    rw [List.mem_map]
    constructor
    · rintro ⟨⟨key, value⟩, he, rfl⟩
      obtain ⟨hentry, hvalue⟩ := List.mem_filter.mp he
      obtain rfl := Option.isNone_iff_eq_none.mp hvalue
      obtain ⟨object, hmatch, hcut⟩ := mem_listEntries_cut.mp hentry
      obtain ⟨hobject, hp⟩ := (hm object).mp hmatch
      exact ⟨object, hobject, hp, (represents_iff hd hp).mpr hcut⟩
    · rintro ⟨object, hobject, hp, hr⟩
      refine ⟨(text, none), List.mem_filter.mpr ⟨mem_listEntries_cut.mpr
        ⟨object, (hm object).mpr ⟨hobject, hp⟩, (represents_iff hd hp).mp hr⟩, rfl⟩, rfl⟩
  refine ⟨?_, ?_, hitems, hprefixes, ?_⟩
  · rw [List.pairwise_filterMap]
    refine hsorted.imp_of_mem ?_
    rintro ⟨key, value⟩ ⟨key', value'⟩ hentry hentry' hlt object hobject object' hobject'
    cases hobject
    cases hobject'
    rw [← (mem_listEntries_item.mp hentry).2.2, ← (mem_listEntries_item.mp hentry').2.2]
    exact hlt
  · rw [List.pairwise_map]
    exact hsorted.filter _
  · intro object hobject hp
    cases hc : commonPrefix pre delimiter object.name with
    | none =>
      refine .inl ((hitems object).mpr ⟨hobject, hp, fun text ht => ?_⟩)
      rw [(represents_iff hd hp).mp ht] at hc
      cases hc
    | some text =>
      have hr := (represents_iff hd hp).mpr hc
      refine .inr ⟨text, (hprefixes text).mpr ⟨object, hobject, hp, hr⟩, hr, fun other ho => ?_⟩
      rw [(represents_iff hd hp).mp ho] at hc
      exact Option.some.inj hc

/-- An empty delimiter is none. -/
theorem represents_filter (pre : String) (delimiter : Option String) :
    Represents pre (delimiter.filter fun value => !value.isEmpty) = Represents pre delimiter := by
  funext name text
  refine propext ⟨?_, ?_⟩
  · rintro ⟨mark, hmark, hne, hcut⟩
    exact ⟨mark, (Option.filter_eq_some_iff.mp hmark).1, hne, hcut⟩
  · rintro ⟨mark, rfl, hne, hcut⟩
    refine ⟨mark, ?_, hne, hcut⟩
    rw [Option.filter_some, if_pos (by simpa using hne)]

theorem groupsAndPages_filter {ask : Option String → Option Reply} {objects : List StoredObject} :
    GroupsAndPages ask objects pre (delimiter.filter fun value => !value.isEmpty) ↔
      GroupsAndPages ask objects pre delimiter := by
  constructor
  · rintro ⟨hsafe, pages, items, prefixes, hwalk, ⟨hi, hp, mi, mp, hg⟩, hrest⟩
    rw [represents_filter] at mi mp hg
    exact ⟨hsafe, pages, items, prefixes, hwalk, ⟨hi, hp, mi, mp, hg⟩, hrest⟩
  · rintro ⟨hsafe, pages, items, prefixes, hwalk, ⟨hi, hp, mi, mp, hg⟩, hrest⟩
    refine ⟨hsafe, pages, items, prefixes, hwalk, ⟨hi, hp, ?_, ?_, ?_⟩, hrest⟩ <;>
      rwa [represents_filter]

/-- A listing of the objects with a prefix groups and pages completely. -/
theorem groupsAndPages_of_perm {objects : List StoredObject}
    {ask : Option String → Option Reply} {maxResults : Option Nat}
    (hd : ∀ text, delimiter = some text → text ≠ "")
    (hp : matching.Perm (objects.filter fun object => startsWith object.name pre))
    (hn : (objects.map StoredObject.name).Nodup) (hlen : objects.length ≤ usizeMax)
    (ha : ∀ token, ask token = listResponseChecked matching pre delimiter token maxResults) :
    GroupsAndPages ask objects pre delimiter := by
  have hm : ∀ object, object ∈ matching ↔
      object ∈ objects ∧ startsWith object.name pre = true :=
    fun object => hp.mem_iff.trans List.mem_filter
  have hnames : (matching.map StoredObject.name).Nodup :=
    (hp.map StoredObject.name).nodup_iff.mpr
      (hn.sublist (List.filter_sublist.map StoredObject.name))
  have hcount : matching.length ≤ usizeMax := by
    rw [hp.length_eq]
    exact Nat.le_trans (List.length_filter_le _ _) hlen
  have hask : ∀ token, ask token = some (pageFrom (listEntries pre delimiter matching)
      (pageSize maxResults) (startOf token)) := by
    intro token
    rw [ha, listResponseChecked_eq hd (fun object h => ((hm object).mp h).2) hcount]
  have hsize : 0 < pageSize maxResults := by
    unfold pageSize
    omega
  have hentries := Nat.le_trans (length_listEntries matching pre delimiter) hcount
  refine ⟨fun token he => by simp [hask] at he, ?_⟩
  have hstart : startOf none = some 0 := rfl
  obtain ⟨pages, hwalk, hitems, hprefixes⟩ := walk_entries hask hsize hentries hstart
  refine ⟨pages, _, _, hwalk, listEntries_groups hd hnames hm, hitems, ?_⟩
  rw [hprefixes, List.drop_zero, List.map_map]
  rfl

/-- Where no object matches nothing is listed, so that no object may have the prefix. -/
theorem groupsAndPages_empty {objects : List StoredObject} {ask : Option String → Option Reply}
    {maxResults : Option Nat} (hd : ∀ text, delimiter = some text → text ≠ "")
    (ha : ∀ token, ask token = listResponseChecked [] pre delimiter token maxResults)
    (h : GroupsAndPages ask objects pre delimiter) :
    ∀ object ∈ objects, startsWith object.name pre = false := by
  have hentries : listEntries pre delimiter [] = [] := by simp [listEntries]
  have hask : ask none = some (.listing (listJson objectJson [] none)) := by
    rw [ha, listResponseChecked_eq hd (by simp) (Nat.zero_le _), hentries]
    simp [pageFrom, startOf]
  obtain ⟨-, pages, items, prefixes, hwalk, hgroups, hitems, hprefixes⟩ := h
  have hpages : pages = [listJson objectJson [] none] := by
    cases hwalk with
    | last asked ends =>
      rw [hask] at asked
      cases asked
      rfl
    | more asked goes tail =>
      rw [hask] at asked
      cases asked
      cases goes
  subst hpages
  have hnoItems : items = [] := List.map_eq_nil_iff.mp hitems.symm
  have hnoPrefixes : prefixes = [] := List.map_eq_nil_iff.mp hprefixes.symm
  subst hnoItems hnoPrefixes
  intro object hobject
  by_contra hp
  rcases hgroups.grouped object hobject (by simpa using hp) with hi | ⟨text, ht, -⟩
  · cases hi
  · cases ht

end groups

section backends
variable {μ π : Type} {codec : StorageCodec μ} {bucket pre : String}
  {objects : List StoredObject}

theorem matching_memory {data : StorageData}
    (h : (Backend.memory data : Backend μ π).Holds codec bucket objects) :
    (data.matching bucket pre).Perm (objects.filter fun object => startsWith object.name pre) := by
  have hfilter : ((data.objects.toList.map Prod.snd).filter fun object =>
      object.bucket == bucket && startsWith object.name pre) =
      ((data.objects.toList.map Prod.snd).filter fun object => object.bucket == bucket).filter
        fun object => startsWith object.name pre := by
    rw [List.filter_filter]
    exact List.filter_congr fun object _ => Bool.and_comm _ _
  refine (List.mergeSort_perm _ _).trans ?_
  rw [hfilter]
  exact List.Perm.filter _ h

theorem matching_persistent {store : PersistentStore μ π}
    (h : (Backend.persistent store).Holds codec bucket objects) (pre : String) :
    ∃ matching, store.matching codec bucket pre = .ok matching ∧
      matching.Perm (objects.filter fun object => sqlStartsWith object.name pre) := by
  obtain ⟨decoded, hdecoded, hperm⟩ := h
  obtain ⟨hok, rfl⟩ := mapM_eq_ok_iff.mp hdecoded
  generalize hrows : (store.tables.rows.toList.filter fun entry => entry.1.bucket == bucket) = rows
    at *
  have hselected : ((store.tables.rows.toList.filter fun entry =>
      entry.1.bucket == bucket && sqlStartsWith entry.1.name pre).mergeSort
        fun left right => decide (left.1.name ≤ right.1.name)).Perm
      (rows.filter fun entry => sqlStartsWith entry.1.name pre) := by
    refine (List.mergeSort_perm _ _).trans ?_
    rw [← hrows, List.filter_filter]
    exact .of_eq (List.filter_congr fun entry _ => Bool.and_comm _ _)
  refine ⟨_, mapM_eq_ok_iff.mpr ⟨fun entry he => ?_, rfl⟩, ?_⟩
  · exact hok entry (List.mem_filter.mp (hselected.mem_iff.mp he)).1
  · refine (hselected.filterMap _).trans (.trans (.of_eq ?_) (hperm.filter _))
    rw [List.filterMap_filter, List.filter_filterMap]
    refine List.filterMap_congr fun entry he => ?_
    obtain ⟨object, ho⟩ := hok entry he
    have hname : object.name = entry.1.name := congrArg ObjectKey.name (storedObject_ok ho).1
    simp only [ho, Except.toOption, Option.filter_some, hname]

/-- SQLite finds a prefix without a NUL in every name that starts with it. -/
theorem sqlStartsWith_of_noNul (name : String) (h : NoNul pre) :
    sqlStartsWith name pre = startsWith name pre := by
  rw [Bool.eq_iff_iff, sqlStartsWith, beq_iff_eq, sqlText_of_noNul h, startsWith,
    List.isPrefixOf_iff_prefix]
  constructor
  · intro he
    rw [← he, String.toList_ofList]
    exact (List.take_prefix _ _).trans (List.takeWhile_prefix _)
  · rintro ⟨rest, hrest⟩
    have hplain : ∀ c ∈ pre.toList, (c != '\x00') = true := by
      intro c hc
      rw [bne_iff_ne]
      rintro rfl
      exact h hc
    rw [sqlText, ← hrest, List.takeWhile_append_of_pos hplain, List.take_left, String.ofList_toList]

/-- A prefix with a NUL it finds in none. -/
theorem sqlStartsWith_of_nul (name : String) (h : ¬ NoNul pre) :
    sqlStartsWith name pre = false := by
  rw [Bool.eq_false_iff]
  intro he
  rw [sqlStartsWith, beq_iff_eq] at he
  apply h
  rw [NoNul, ← he, String.toList_ofList]
  intro hm
  have hnul := List.mem_takeWhile_imp (List.mem_of_mem_take hm)
  simp at hnul

/-- A listing groups and pages completely if and only if the objects are in memory, the prefix
has no NUL, or there is nothing to list. -/
theorem listing_complete_iff (backend : Backend μ π) (bucket : String) (query : ListQuery)
    (objects : List StoredObject) (hh : backend.Holds codec bucket objects)
    (hn : (objects.map StoredObject.name).Nodup) (hlen : objects.length ≤ usizeMax) :
    GroupsAndPages
        (fun token => backend.listObjects codec bucket { query with pageToken := token })
        objects (query.pre.getD "") query.delimiter ↔
      (∃ data, backend = .memory data) ∨ NoNul (query.pre.getD "") ∨
        ∀ object ∈ objects, startsWith object.name (query.pre.getD "") = false := by
  have hd : ∀ text, (query.delimiter.filter fun value => !value.isEmpty) = some text →
      text ≠ "" := by
    intro text ht
    simpa using (Option.filter_eq_some_iff.mp ht).2
  rw [← groupsAndPages_filter]
  cases backend with
  | memory data =>
    refine iff_of_true ?_ (.inl ⟨data, rfl⟩)
    exact groupsAndPages_of_perm hd (matching_memory hh) hn hlen fun token => rfl
  | persistent store =>
    obtain ⟨matching, hmatching, hperm⟩ := matching_persistent hh (query.pre.getD "")
    have ha : ∀ token, (Backend.persistent store).listObjects codec bucket
        { query with pageToken := token } = listResponseChecked matching (query.pre.getD "")
          (query.delimiter.filter fun value => !value.isEmpty) token query.maxResults := by
      intro token
      simp only [Backend.listObjects, Backend.matching, hmatching]
    by_cases hnul : NoNul (query.pre.getD "")
    · refine iff_of_true ?_ (.inr (.inl hnul))
      simp only [sqlStartsWith_of_noNul _ hnul] at hperm
      exact groupsAndPages_of_perm hd hperm hn hlen ha
    · have hnone : matching = [] := by
        simpa [sqlStartsWith_of_nul _ hnul] using hperm
      subst hnone
      have hempty : (objects.filter fun object => startsWith object.name (query.pre.getD "")) = [] ↔
          ∀ object ∈ objects, startsWith object.name (query.pre.getD "") = false := by
        simp
      simp only [reduceCtorEq, exists_false, hnul, false_or]
      constructor
      · exact groupsAndPages_empty hd ha
      · intro hfalse
        refine groupsAndPages_of_perm hd ?_ hn hlen ha
        rw [hempty.mpr hfalse]

end backends

/-- An object named by a text with a NUL in it. -/
def nulObject : StoredObject where
  bucket := "bucket"
  name := "a\x00b"
  bytes := none
  blobName := some sampleBlob
  size := 1
  crc32c := "AAAAAA=="
  contentType := "text/plain"
  metadata := []
  cacheControl := none
  contentDisposition := none
  contentEncoding := none
  generation := 1
  created := "2024-01-01T00:00:00Z"
  updated := "2024-01-01T00:00:00Z"
  downloadToken := sampleNextBlob

def nulQuery : ListQuery := ⟨some "a\x00", none, none, none⟩

def nulData : StorageData := ⟨1, (∅ : ExtTreeMap ObjectKey StoredObject).insert nulObject.key nulObject⟩

def nulStore : PersistentStore StoredMetadata Unit :=
  ⟨{ (ObjectTables.empty false : ObjectTables StoredMetadata Unit) with
    rows := (∅ : ExtTreeMap ObjectKey (ObjectRow StoredMetadata)).insert nulObject.key
      (objectRow plainStorageCodec nulObject sampleBlob none) }, ⟨∅, ∅⟩⟩

theorem nulData_holds :
    (Backend.memory nulData : Backend StoredMetadata Unit).Holds plainStorageCodec "bucket"
      [nulObject] := by
  exact .of_eq rfl

theorem nulStore_holds :
    (Backend.persistent nulStore).Holds plainStorageCodec "bucket" [nulObject] :=
  ⟨[nulObject], rfl, .refl _⟩

theorem listing_complete_iff_sample :
    GroupsAndPages (fun token => (Backend.memory nulData : Backend StoredMetadata Unit).listObjects
        plainStorageCodec "bucket" { nulQuery with pageToken := token })
        [nulObject] "a\x00" none ↔
      (∃ data, (Backend.memory nulData : Backend StoredMetadata Unit) = .memory data) ∨
        NoNul "a\x00" ∨ ∀ object ∈ [nulObject], startsWith object.name "a\x00" = false :=
  @listing_complete_iff _ _ plainStorageCodec (.memory nulData) "bucket" nulQuery [nulObject]
    nulData_holds (by decide) (by decide)

/-- On the persistent backend an object whose name starts with a prefix with a NUL is not
listed. -/
theorem listing_misses_nul :
    (Backend.persistent nulStore).Holds plainStorageCodec "bucket" [nulObject] ∧
      ¬ GroupsAndPages (fun token => (Backend.persistent nulStore).listObjects plainStorageCodec
        "bucket" { nulQuery with pageToken := token }) [nulObject] "a\x00" none := by
  refine ⟨nulStore_holds, fun h => ?_⟩
  have hnul : ¬ NoNul "a\x00" := by
    unfold NoNul
    decide
  have hmatching : nulStore.matching plainStorageCodec "bucket" "a\x00" = .ok [] := by
    obtain ⟨matching, hm, hp⟩ := matching_persistent nulStore_holds "a\x00"
    simp only [sqlStartsWith_of_nul _ hnul] at hp
    rw [hm, hp.eq_nil]
  have hask : ∀ token, (Backend.persistent nulStore).listObjects plainStorageCodec "bucket"
      { nulQuery with pageToken := token } =
        listResponseChecked [] "a\x00" none token none := by
    intro token
    simp only [Backend.listObjects, Backend.matching, nulQuery, Option.getD_some, hmatching,
      Option.filter_none]
  have hfalse := groupsAndPages_empty (by simp) hask h nulObject (by simp)
  exact absurd hfalse (by decide)

end FirebaseEmu.Storage
