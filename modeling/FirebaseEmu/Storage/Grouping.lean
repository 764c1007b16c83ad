import FirebaseEmu.Lib.Base64
import FirebaseEmu.Lib.Decimal
import FirebaseEmu.Lib.Paging
import FirebaseEmu.Lib.Utf8
import FirebaseEmu.Storage.Listing

namespace FirebaseEmu.Storage
open Lib

/-- `&text[start..]`; `none` is a panic. -/
def sliceFrom (text : String) (start : Nat) : Option String :=
  if start ≤ (textBytes text).length then ofUtf8 ((textBytes text).drop start) else none

/-- `&text[..stop]`; `none` is a panic. -/
def sliceTo (text : String) (stop : Nat) : Option String :=
  if stop ≤ (textBytes text).length then ofUtf8 ((textBytes text).take stop) else none

/-- `text.find(pattern)`. -/
def findText (text pattern : String) : Option Nat := find (textBytes text) (textBytes pattern)

/-- The common prefix that stands for an object, by places in the bytes of its name. The outer
`none` is a panic. -/
def cutName (pre : String) (delimiter : Option String) (name : String) : Option (Option String) :=
  match delimiter with
  | none => some none
  | some delimiter => do
    let remainder ← sliceFrom name (textBytes pre).length
    match findText remainder delimiter with
    | none => some none
    | some index =>
      let stop := (textBytes pre).length + index + (textBytes delimiter).length
      let text ← sliceTo name stop
      return some text

def encodeOffset (offset : Nat) : String := Base64.standard.encode (textBytes (toString offset))

def decodeOffset (token : String) : Option Nat :=
  ((Base64.standard.decode token).bind ofUtf8).bind parseUsize

/-- The place where a page starts. -/
def startOf (pageToken : Option String) : Option Nat :=
  match pageToken with
  | some token => decodeOffset token
  | none => some 0

def pageSize (maxResults : Option Nat) : Nat := max 1 (min 1000 (maxResults.getD 1000))

/-- The token for the next page, when there is one. The outer `none` is an overflow. -/
def nextOffset (offset limit count : Nat) : Option (Option String) :=
  if min (offset + limit) usizeMax < count then
    if offset + limit ≤ usizeMax then some (some (encodeOffset (offset + limit))) else none
  else some none

/-- The entries of a listing, from the common prefix of each object. -/
def entriesOf (cuts : List (StoredObject × Option String)) :
    List (String × Option StoredObject) :=
  let items := (cuts.filter fun cut => cut.2.isNone).map Prod.fst
  let prefixes := (cuts.filterMap Prod.snd).eraseDups
  let listed : List (String × Option StoredObject) := items.map fun object =>
    (object.name, some object)
  (listed ++ prefixes.map fun text => (text, none)).mergeSort fun a b => decide (a.1 ≤ b.1)

/-- `list_response` with the panics of its slices and sums: `none` is one of them. -/
def listResponseChecked (matching : List StoredObject) (pre : String) (delimiter : Option String)
    (pageToken : Option String) (maxResults : Option Nat) : Option Reply := do
  let cuts ← matching.mapM fun object => (cutName pre delimiter object.name).map (object, ·)
  match startOf pageToken with
  | none => return .failed 400 "invalid page token"
  | some offset =>
    let limit := pageSize maxResults
    let entries := entriesOf cuts
    let next ← nextOffset offset limit entries.length
    return .listing (listJson objectJson ((entries.drop offset).take limit) next)

/-- The text ends at the first delimiter behind the prefix of a name. -/
def Cut (pre delimiter name text : String) : Prop :=
  ∃ before after : String, name = pre ++ before ++ delimiter ++ after ∧
    text = pre ++ before ++ delimiter ∧
    ∀ before' after' : String, name = pre ++ before' ++ delimiter ++ after' →
      before.toList.length ≤ before'.toList.length

/-- A name has one cut at most. -/
theorem Cut.unique {pre delimiter name text text' : String} (h : Cut pre delimiter name text)
    (h' : Cut pre delimiter name text') : text' = text := by
  obtain ⟨before, after, hname, rfl, hfirst⟩ := h
  obtain ⟨before', after', hname', rfl, hfirst'⟩ := h'
  have hlen : before'.toList.length = before.toList.length :=
    Nat.le_antisymm (hfirst' before after hname) (hfirst before' after' hname')
  rw [hname] at hname'
  have hlist := congrArg String.toList hname'
  simp only [String.toList_append, List.append_assoc, List.append_cancel_left_eq] at hlist
  have hbefore := (List.append_inj hlist hlen.symm).1
  rw [← String.toList_inj.mp hbefore]

theorem sliceFrom_append (pre rest : String) :
    sliceFrom (pre ++ rest) (textBytes pre).length = some rest := by
  have hbytes : textBytes (pre ++ rest) = textBytes pre ++ textBytes rest := by
    simp only [textBytes_eq, String.toList_append, encode_append]
  rw [sliceFrom, hbytes, if_pos (by simp), List.drop_left]
  exact ofUtf8_eq_some.mpr rfl

theorem sliceTo_append (pre rest : String) :
    sliceTo (pre ++ rest) (textBytes pre).length = some pre := by
  have hbytes : textBytes (pre ++ rest) = textBytes pre ++ textBytes rest := by
    simp only [textBytes_eq, String.toList_append, encode_append]
  rw [sliceTo, hbytes, if_pos (by simp), List.take_left]
  exact ofUtf8_eq_some.mpr rfl

theorem upTo_eq (delimiter cs : List Char) :
    upTo delimiter cs = (find cs delimiter).map fun i => cs.take (i + delimiter.length) := by
  by_cases hd : delimiter = []
  · subst hd
    cases cs <;> rfl
  · induction cs with
    | nil =>
      have hnone : delimiter.isPrefixOf [] = false := by cases delimiter <;> simp_all
      rw [upTo, hnone, find_nil hd]
      rfl
    | cons c cs ih =>
      rw [upTo, find_cons hd]
      by_cases hp : delimiter <+: c :: cs
      · rw [if_pos (List.isPrefixOf_iff_prefix.mpr hp), if_pos hp, Option.map_some, Nat.zero_add,
          ← List.prefix_iff_eq_take.mp hp]
      · rw [if_neg (by rwa [List.isPrefixOf_iff_prefix]), if_neg hp, ih, Option.map_map,
          Option.map_map]
        refine congrArg (fun f => (find cs delimiter).map f) (funext fun i => ?_)
        simp only [Function.comp_apply, Nat.add_right_comm i 1, List.take_succ_cons]

/-- Behind the prefix the first delimiter is searched. -/
theorem commonPrefix_append (pre delimiter rest : String) :
    commonPrefix pre (some delimiter) (pre ++ rest) =
      (find rest.toList delimiter.toList).map fun i =>
        pre ++ String.ofList (rest.toList.take (i + delimiter.toList.length)) := by
  have hpre : (pre ++ rest).toList.take pre.toList.length = pre.toList := by
    rw [String.toList_append, List.take_left]
  rw [commonPrefix, Option.bind_some, String.toList_append, List.drop_left,
    ← String.toList_append, hpre, upTo_eq, Option.map_map]
  refine congrArg (fun f => (find rest.toList delimiter.toList).map f) (funext fun i => ?_)
  rw [Function.comp_apply, ← String.toList_inj]
  simp

/-- By places in bytes the same prefix is cut off, and no slice panics. -/
theorem cutName_append {pre rest : String} {delimiter : Option String}
    (hd : ∀ text, delimiter = some text → text ≠ "") :
    cutName pre delimiter (pre ++ rest) = some (commonPrefix pre delimiter (pre ++ rest)) := by
  cases delimiter with
  | none => rfl
  | some delimiter =>
    have hne : delimiter.toList ≠ [] := by simpa using hd delimiter rfl
    have hfind : findText rest delimiter = (find rest.toList delimiter.toList).map fun i =>
        (encode (rest.toList.take i)).length := by
      rw [findText, textBytes_eq, textBytes_eq, find_encode hne]
    rw [commonPrefix_append]
    simp only [cutName, sliceFrom_append, Option.bind_eq_bind, Option.bind_some, hfind]
    cases hf : find rest.toList delimiter.toList with
    | none => rfl
    | some i =>
      have hfound := find_eq_some hf
      obtain ⟨after, hafter⟩ := hfound.here
      have htake : rest.toList.take (i + delimiter.toList.length) =
          rest.toList.take i ++ delimiter.toList := by
        rw [List.take_add, ← hafter, List.take_left]
      generalize hcut : pre ++ String.ofList (rest.toList.take (i + delimiter.toList.length)) = text
      have hlen : (textBytes pre).length + (encode (rest.toList.take i)).length +
          (textBytes delimiter).length = (textBytes text).length := by
        rw [← hcut, htake]
        simp only [textBytes_eq, String.toList_append, String.toList_ofList, encode_append,
          List.length_append, Nat.add_assoc]
      have hname : pre ++ rest = text ++ String.ofList after := by
        rw [← hcut, ← String.toList_inj, htake]
        simp only [String.toList_append, String.toList_ofList, List.append_assoc, hafter,
          List.take_append_drop]
      simp only [Option.map_some, hlen]
      rw [hname, sliceTo_append, hcut]
      rfl

/-- The prefix that a listing shows for an object ends at the first delimiter. -/
theorem commonPrefix_eq_some {pre delimiter name text : String}
    (hp : startsWith name pre = true) :
    commonPrefix pre (some delimiter) name = some text ↔ Cut pre delimiter name text := by
  obtain ⟨rest, rfl⟩ := (startsWith_iff name pre).mp hp
  have hoccurs : ∀ {before' after' : String}, pre ++ rest = pre ++ before' ++ delimiter ++ after' →
      delimiter.toList <+: rest.toList.drop before'.toList.length := by
    intro before' after' hname
    have hlist := congrArg String.toList hname
    simp only [String.toList_append, List.append_assoc, List.append_cancel_left_eq] at hlist
    rw [hlist, List.drop_left]
    exact List.prefix_append _ _
  have hcut : ∀ {i : Nat}, find rest.toList delimiter.toList = some i →
      Cut pre delimiter (pre ++ rest)
        (pre ++ String.ofList (rest.toList.take (i + delimiter.toList.length))) := by
    intro i hf
    have hfound := find_eq_some hf
    obtain ⟨after, hafter⟩ := hfound.here
    refine ⟨String.ofList (rest.toList.take i), String.ofList after, ?_, ?_, ?_⟩
    · rw [← String.toList_inj]
      simp [hafter]
    · rw [← String.toList_inj, List.take_add, ← hafter]
      simp
    · intro before' after' hname
      rw [String.toList_ofList]
      refine Nat.le_trans (List.length_take_le _ _) (Nat.le_of_not_lt fun hlt => ?_)
      exact hfound.first _ hlt (hoccurs hname)
  rw [commonPrefix_append]
  constructor
  · intro h
    obtain ⟨i, hf, rfl⟩ := Option.map_eq_some_iff.mp h
    exact hcut hf
  · intro h
    have hne : find rest.toList delimiter.toList ≠ none := by
      obtain ⟨before, after, hname, -⟩ := h
      exact find_ne_none (hoccurs hname)
    obtain ⟨i, hf⟩ := Option.ne_none_iff_exists'.mp hne
    rw [hf, Option.map_some, h.unique (hcut hf)]

/-- A name with a delimiter behind the prefix is cut. -/
theorem commonPrefix_ne_none (pre before delimiter after : String) :
    commonPrefix pre (some delimiter) (pre ++ before ++ delimiter ++ after) ≠ none := by
  have hname : pre ++ before ++ delimiter ++ after = pre ++ (before ++ delimiter ++ after) := by
    simp only [String.append_assoc]
  have hoccurs : delimiter.toList <+:
      (before ++ delimiter ++ after).toList.drop before.toList.length := by
    rw [String.toList_append, String.toList_append, List.append_assoc, List.drop_left]
    exact List.prefix_append _ _
  rw [hname, commonPrefix_append]
  simpa using find_ne_none hoccurs

/-- The cuts that a loop over the objects finds. -/
theorem mapM_cutName {matching : List StoredObject} {pre : String} {delimiter : Option String}
    (hd : ∀ text, delimiter = some text → text ≠ "")
    (hm : ∀ object ∈ matching, startsWith object.name pre = true) :
    (matching.mapM fun object => (cutName pre delimiter object.name).map (object, ·)) =
      some (matching.map fun object => (object, commonPrefix pre delimiter object.name)) := by
  induction matching with
  | nil => rfl
  | cons object matching ih =>
    rw [List.forall_mem_cons] at hm
    obtain ⟨rest, hname⟩ := (startsWith_iff object.name pre).mp hm.1
    rw [List.mapM_cons, ih hm.2, hname, cutName_append hd]
    simp [hname]

theorem entriesOf_eq (matching : List StoredObject) (pre : String) (delimiter : Option String) :
    entriesOf (matching.map fun object => (object, commonPrefix pre delimiter object.name)) =
      listEntries pre delimiter matching := by
  simp only [entriesOf, listEntries, List.filter_map, List.filterMap_map, List.map_map,
    Function.comp_def, List.map_id']

/-- There are no more entries than objects. -/
theorem length_listEntries (matching : List StoredObject) (pre : String)
    (delimiter : Option String) :
    (listEntries pre delimiter matching).length ≤ matching.length := by
  have hparts : (matching.filter fun object => (commonPrefix pre delimiter object.name).isNone).length +
      (matching.filterMap fun object => commonPrefix pre delimiter object.name).length =
      matching.length := by
    induction matching with
    | nil => rfl
    | cons object matching ih =>
      cases hc : commonPrefix pre delimiter object.name <;> simp [hc] <;> omega
  have hle := length_eraseDups_le
    (matching.filterMap fun object => commonPrefix pre delimiter object.name)
  simp only [listEntries, List.length_mergeSort, List.length_append, List.length_map]
  omega

/-- The page of a listing that starts at a place. -/
def pageFrom (entries : List (String × Option StoredObject)) (size : Nat) : Option Nat → Reply
  | none => .failed 400 "invalid page token"
  | some offset => .listing (listJson objectJson ((entries.drop offset).take size)
      (if offset + size < entries.length then some (encodeOffset (offset + size)) else none))

theorem nextOffset_eq {count : Nat} (h : count ≤ usizeMax) (offset limit : Nat) :
    nextOffset offset limit count =
      some (if offset + limit < count then some (encodeOffset (offset + limit)) else none) := by
  unfold nextOffset
  by_cases hlt : offset + limit < count
  · rw [if_pos (by omega), if_pos (by omega), if_pos hlt]
  · rw [if_neg (by omega), if_neg hlt]

/-- No slice and no sum panics, and a page is cut out of the entries. -/
theorem listResponseChecked_eq {matching : List StoredObject} {pre : String}
    {delimiter : Option String} (hd : ∀ text, delimiter = some text → text ≠ "")
    (hm : ∀ object ∈ matching, startsWith object.name pre = true)
    (hlen : matching.length ≤ usizeMax) (pageToken : Option String) (maxResults : Option Nat) :
    listResponseChecked matching pre delimiter pageToken maxResults =
      some (pageFrom (listEntries pre delimiter matching) (pageSize maxResults)
        (startOf pageToken)) := by
  have hcount := Nat.le_trans (length_listEntries matching pre delimiter) hlen
  rw [listResponseChecked, mapM_cutName hd hm]
  simp only [Option.bind_eq_bind, Option.bind_some, entriesOf_eq, nextOffset_eq hcount]
  cases startOf pageToken with
  | none => rfl
  | some offset => rfl

/-- Under the service's own page tokens this is the listing by characters. -/
theorem listResponseChecked_listResponse {μ : Type} {codec : StorageCodec μ}
    (he : codec.encodePageToken = encodeOffset) (hdec : codec.decodePageToken = decodeOffset)
    {matching : List StoredObject} {query : ListQuery}
    (hm : ∀ object ∈ matching, startsWith object.name (query.pre.getD "") = true)
    (hlen : matching.length ≤ usizeMax) :
    listResponseChecked matching (query.pre.getD "")
        (query.delimiter.filter fun value => !value.isEmpty) query.pageToken query.maxResults =
      some (listResponse codec matching query) := by
  have hd : ∀ text, (query.delimiter.filter fun value => !value.isEmpty) = some text →
      text ≠ "" := by
    intro text ht
    simpa using (Option.filter_eq_some_iff.mp ht).2
  rw [listResponseChecked_eq hd hm hlen, listResponse, listReply, he, hdec]
  unfold startOf
  cases query.pageToken with
  | none => rfl
  | some token =>
    dsimp only
    cases decodeOffset token with
    | none => rfl
    | some offset => rfl

end FirebaseEmu.Storage
