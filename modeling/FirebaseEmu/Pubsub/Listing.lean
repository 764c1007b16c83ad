import FirebaseEmu.Lib.Base64
import FirebaseEmu.Lib.Paging
import FirebaseEmu.Lib.Utf8
import FirebaseEmu.Pubsub.Sample

namespace FirebaseEmu.Pubsub
open Lib

def maxPageSize : Int := 1000

/-- The size of a page and the name that it comes after. -/
def pageBounds (pageSize : Int) (token : String) : Except Status (Nat × Option String) :=
  if pageSize < 0 then .error (invalidArgument "page_size must not be negative")
  else
    let size := (if pageSize = 0 then 100 else min pageSize maxPageSize).toNat
    if token.isEmpty then .ok (size, none)
    else
      match (Base64.urlSafeNoPad.decode token).bind ofUtf8 with
      | some after => .ok (size, some after)
      | none => .error (invalidArgument "invalid page_token")

def paginate {τ : Type} (values : List τ) (pageSize : Int) (token : String) (name : τ → String) :
    Except Status (List τ × String) :=
  let values := values.mergeSort fun left right => decide (name left ≤ name right)
  match pageBounds pageSize token with
  | .error e => .error e
  | .ok (size, after) =>
    let retained := match after with
      | some after => values.filter fun value => decide (after < name value)
      | none => values
    let page := retained.take size
    let next := if size < retained.length then
        (page.getLast?.map fun value => Base64.urlSafeNoPad.encode (textBytes (name value))).getD ""
      else ""
    .ok (page, next)

/-- A list as it is when a page of it is asked for, and the page. -/
structure Listed (τ : Type) where
  values : List τ
  page : List τ

/-- Each resource has a name of its own. -/
structure Named {τ : Type} (name : τ → String) (values : List τ) : Prop where
  distinct : (values.map name).Nodup
  nonempty : ∀ value ∈ values, name value ≠ ""

/-- One page asked for after another, each with the token of the page before, until a token is
empty. -/
inductive Iteration {τ : Type} (name : τ → String) (pageSize : Int) :
    String → List (Listed τ) → Prop where
  | last {token : String} {values page : List τ}
      (asked : paginate values pageSize token name = .ok (page, "")) :
      Iteration name pageSize token [⟨values, page⟩]
  | more {token next : String} {values page : List τ} {pages : List (Listed τ)}
      (asked : paginate values pageSize token name = .ok (page, next)) (hn : next ≠ "")
      (tail : Iteration name pageSize next pages) :
      Iteration name pageSize token (⟨values, page⟩ :: pages)

variable {τ : Type} {name : τ → String} {pageSize : Int}

def pageLimit (pageSize : Int) : Nat := (if pageSize = 0 then 100 else min pageSize maxPageSize).toNat

def tokenOf (name : String) : String := Base64.urlSafeNoPad.encode (textBytes name)

/-- The list that pages are cut from. -/
def sortedBy (name : τ → String) (values : List τ) : List τ :=
  values.mergeSort fun left right => decide (name left ≤ name right)

/-- The name that a token stands for. -/
def Cursor (token : String) : Option String → Prop
  | none => token = ""
  | some after => after ≠ "" ∧ token = tokenOf after

theorem pageLimit_pos (h : 0 ≤ pageSize) : 0 < pageLimit pageSize := by
  unfold pageLimit maxPageSize
  split <;> omega

theorem textBytes_ne_nil {s : String} (h : s ≠ "") : textBytes s ≠ [] := by
  intro he
  apply h
  have hempty : ofUtf8 [] = some s := ofUtf8_eq_some.mpr he
  have hnil : ofUtf8 [] = some "" := ofUtf8_eq_some.mpr rfl
  exact Option.some.inj (hempty.symm.trans hnil)

theorem tokenOf_ne_empty {s : String} (h : s ≠ "") : tokenOf s ≠ "" :=
  Base64.urlSafeNoPad.encode_ne_empty (textBytes_ne_nil h)

theorem pageBounds_cursor (h : 0 ≤ pageSize) {token : String} {after : Option String}
    (hc : Cursor token after) : pageBounds pageSize token = .ok (pageLimit pageSize, after) := by
  unfold pageBounds
  rw [if_neg (Int.not_lt.mpr h)]
  cases after with
  | none =>
    have htoken : token = "" := hc
    subst htoken
    rfl
  | some after =>
    obtain ⟨hne, rfl⟩ := hc
    have hsome : (Base64.urlSafeNoPad.decode (tokenOf after)).bind ofUtf8 = some after := by
      rw [tokenOf, Base64.decode_encode, Option.bind_some, ofUtf8_eq_some]
    rw [if_neg (by simpa using tokenOf_ne_empty hne), hsome]
    rfl

/-- A page is cut from what lies behind the cursor, and its token stands for its last name. -/
theorem paginate_eq (h : 0 ≤ pageSize) {token : String} {after : Option String}
    (hc : Cursor token after) (values : List τ) :
    let retained := behind name after (sortedBy name values)
    paginate values pageSize token name = .ok (retained.take (pageLimit pageSize),
      if pageLimit pageSize < retained.length then
        ((retained.take (pageLimit pageSize)).getLast?.map fun value => tokenOf (name value)).getD ""
      else "") := by
  unfold paginate
  rw [pageBounds_cursor h hc]
  cases after with
  | none =>
    rw [behind_none]
    rfl
  | some after => rfl

theorem Named.sorted {values : List τ} (h : Named name values) :
    (sortedBy name values).Pairwise fun a b => name a < name b := mergeSort_sorted h.distinct

theorem mem_sortedBy {values : List τ} {value : τ} :
    value ∈ sortedBy name values ↔ value ∈ values := (List.mergeSort_perm _ _).mem_iff

/-- The last page leaves nothing; any other is full, and its token is that of its last name. -/
theorem paginate_ok (h : 0 ≤ pageSize) {token next : String} {after : Option String}
    (hc : Cursor token after) {values page : List τ} (hn : Named name values)
    (hp : paginate values pageSize token name = .ok (page, next)) :
    let retained := behind name after (sortedBy name values)
    page = retained.take (pageLimit pageSize) ∧
      ((next = "" ∧ retained.length ≤ pageLimit pageSize) ∨
        pageLimit pageSize < retained.length ∧ ∃ last, page.getLast? = some last ∧
          name last ≠ "" ∧ next = tokenOf (name last)) := by
  rw [paginate_eq h hc] at hp
  obtain ⟨rfl, hnext⟩ := Prod.mk.inj (Except.ok.inj hp)
  refine ⟨rfl, ?_⟩
  have hpos := pageLimit_pos h
  split at hnext
  · rename_i hlen
    refine .inr ⟨hlen, ?_⟩
    cases hl : ((behind name after (sortedBy name values)).take (pageLimit pageSize)).getLast? with
    | none =>
      rw [List.getLast?_eq_none_iff, List.take_eq_nil_iff] at hl
      rcases hl with hzero | hnil
      · omega
      · rw [hnil] at hlen
        exact absurd hlen (Nat.not_lt_zero _)
    | some last =>
      rw [hl] at hnext
      have hmem := List.mem_of_mem_take (List.mem_of_getLast? hl)
      exact ⟨last, rfl, hn.nonempty last (mem_sortedBy.mp (mem_behind.mp hmem).1), hnext.symm⟩
  · rename_i hlen
    exact .inl ⟨hnext.symm, Nat.not_lt.mp hlen⟩

namespace Iteration
variable {token : String} {pages : List (Listed τ)}

def looks (name : τ → String) (pageSize : Int) (pages : List (Listed τ)) : List (Look τ) :=
  pages.map fun listed => ⟨sortedBy name listed.values, pageLimit pageSize, listed.page⟩

theorem flatMap_looks (pages : List (Listed τ)) :
    (looks name pageSize pages).flatMap Look.page = pages.flatMap Listed.page := by
  rw [looks, List.flatMap_map]

/-- The pages of an iteration are a scan of the sorted lists. -/
theorem scan (h : 0 ≤ pageSize) (hi : Iteration name pageSize token pages) {after : Option String}
    (hc : Cursor token after) (hn : ∀ listed ∈ pages, Named name listed.values) :
    Scan name after (looks name pageSize pages) := by
  induction hi generalizing after with
  | @last token values page asked =>
    have hnamed : Named name values := hn _ (List.mem_singleton.mpr rfl)
    obtain ⟨rfl, ⟨-, hfits⟩ | ⟨-, last, -, hne, hnext⟩⟩ := paginate_ok h hc hnamed asked
    · rw [looks, List.map_singleton, List.take_of_length_le hfits]
      exact .last hfits
    · exact absurd hnext.symm (tokenOf_ne_empty hne)
  | @more token next values page pages asked hne tail ih =>
    rw [List.forall_mem_cons] at hn
    have hnamed : Named name values := hn.1
    obtain ⟨rfl, ⟨hnext, -⟩ | ⟨hleft, last, hlast, hname, rfl⟩⟩ := paginate_ok h hc hnamed asked
    · exact absurd hnext hne
    · exact .more hleft hlast (ih ⟨hname, rfl⟩ hn.2)

/-- A scan of a list that stays is an iteration. -/
theorem of_scan (h : 0 ≤ pageSize) {values : List τ} (hn : Named name values)
    {after : Option String} (hc : Cursor token after) {looks : List (Look τ)}
    (hs : Scan name after looks)
    (heach : ∀ look ∈ looks, look.full = sortedBy name values ∧ look.size = pageLimit pageSize) :
    Iteration name pageSize token (looks.map fun look => ⟨values, look.page⟩) := by
  induction hs generalizing token with
  | last fits =>
    obtain ⟨rfl, rfl⟩ := heach _ (List.mem_singleton.mpr rfl)
    rw [List.map_singleton]
    apply Iteration.last
    rw [paginate_eq h hc, if_neg (Nat.not_lt.mpr fits), List.take_of_length_le fits]
  | @more cursor full size last looks left ends tail ih =>
    rw [List.forall_mem_cons] at heach
    obtain ⟨⟨rfl, rfl⟩, heach⟩ := heach
    have hmem := List.mem_of_mem_take (List.mem_of_getLast? ends)
    have hne := hn.nonempty last (mem_sortedBy.mp (mem_behind.mp hmem).1)
    rw [List.map_cons]
    refine .more ?_ (tokenOf_ne_empty hne) (ih ⟨hne, rfl⟩ heach)
    rw [paginate_eq h hc, if_pos left, ends]
    rfl

end Iteration

/-- The pages of a list that stays as it is come to an end and tile the list in the order of the
names. Whatever is added to the list or removed from it between the pages, a name that stays in
the list is on exactly one of them. -/
theorem listing_tiles (name : τ → String) (h : 0 ≤ pageSize) :
    (∀ values : List τ, Named name values →
      (∃ pages, Iteration name pageSize "" pages ∧ ∀ listed ∈ pages, listed.values = values) ∧
      ∀ pages, Iteration name pageSize "" pages → (∀ listed ∈ pages, listed.values = values) →
        (pages.flatMap Listed.page).Perm values ∧
        ((pages.flatMap Listed.page).map name).Pairwise (· < ·)) ∧
    ∀ pages, Iteration name pageSize "" pages → (∀ listed ∈ pages, Named name listed.values) →
      ∀ k, (∀ listed ∈ pages, k ∈ listed.values.map name) →
        ((pages.flatMap Listed.page).map name).count k = 1 := by
  have hstart : Cursor "" none := rfl
  have hsorted : ∀ pages : List (Listed τ), (∀ listed ∈ pages, Named name listed.values) →
      ∀ look ∈ Iteration.looks name pageSize pages, look.full.Pairwise fun a b => name a < name b := by
    intro pages hn look hl
    obtain ⟨listed, hm, rfl⟩ := List.mem_map.mp hl
    exact (hn listed hm).sorted
  refine ⟨fun values hn => ⟨?_, fun pages hi hsame => ?_⟩, fun pages hi hn k hk => ?_⟩
  · obtain ⟨looks, hscan, heach⟩ := Scan.complete hn.sorted (pageLimit_pos h) _
      (Nat.le_refl (behind name none (sortedBy name values)).length)
    refine ⟨_, Iteration.of_scan h hn hstart hscan heach, fun listed hl => ?_⟩
    obtain ⟨look, -, rfl⟩ := List.mem_map.mp hl
    rfl
  · have hnamed : ∀ listed ∈ pages, Named name listed.values := fun listed hm =>
      (hsame listed hm).symm ▸ hn
    have hscan := hi.scan h hstart hnamed
    have hp := hscan.sorted (hsorted pages hnamed)
    rw [Iteration.flatMap_looks] at hp
    refine ⟨?_, List.pairwise_map.mpr hp⟩
    have hall := hscan.flatMap_eq hn.sorted fun look hl => by
      obtain ⟨listed, hm, rfl⟩ := List.mem_map.mp hl
      rw [hsame listed hm]
    rw [Iteration.flatMap_looks, behind_none] at hall
    rw [hall]
    exact List.mergeSort_perm _ _
  · have hscan := hi.scan h hstart hn
    have hp := hscan.sorted (hsorted pages hn)
    have hmem := hscan.covers (hsorted pages hn) (fun look hl => by
      obtain ⟨listed, hm, rfl⟩ := List.mem_map.mp hl
      obtain ⟨value, hv, he⟩ := List.mem_map.mp (hk listed hm)
      exact List.mem_map.mpr ⟨value, mem_sortedBy.mpr hv, he⟩) fun c hc => by cases hc
    rw [Iteration.flatMap_looks] at hp hmem
    have hnodup : ((pages.flatMap Listed.page).map name).Nodup :=
      (List.pairwise_map.mpr hp).imp fun hlt => ne_of_lt hlt
    exact List.count_eq_one_of_mem hnodup hmem

/-- Two topics on pages of one. -/
theorem listing_tiles_sample : ∃ pages : List (Listed String), Iteration id 1 "" pages ∧
    (pages.flatMap Listed.page).Perm [sampleTopic, "projects/p/topics/orders"] := by
  have hnamed : Named id [sampleTopic, "projects/p/topics/orders"] := by
    constructor <;> decide
  obtain ⟨⟨pages, hi, hsame⟩, htiles⟩ :=
    (listing_tiles id (by decide : (0 : Int) ≤ 1)).1 _ hnamed
  exact ⟨pages, hi, (htiles pages hi hsame).1⟩

end FirebaseEmu.Pubsub
