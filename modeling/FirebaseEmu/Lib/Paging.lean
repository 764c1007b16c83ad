import Mathlib.Data.List.Basic
import Mathlib.Data.List.Perm.Subperm
import Mathlib.Order.Lattice

namespace FirebaseEmu.Lib

variable {κ δ ε : Type}

/-- In key order, an element is among the first so many when fewer come before it. -/
theorem mem_take_iff_countP {α β : Type} [LinearOrder β] {key : α → β} {l : List α}
    (h : l.Pairwise fun a b => key a < key b) {x : α} (hx : x ∈ l) (n : Nat) :
    x ∈ l.take n ↔ l.countP (fun a => decide (key a < key x)) < n := by
  obtain ⟨before, after, rfl⟩ := List.append_of_mem hx
  rw [List.pairwise_append, List.pairwise_cons] at h
  obtain ⟨-, ⟨hafter, -⟩, hbefore⟩ := h
  have hb : ∀ a ∈ before, key a < key x := fun a ha => hbefore a ha x List.mem_cons_self
  have hcount : (before ++ x :: after).countP (fun a => decide (key a < key x)) =
      before.length := by
    have hnone : after.countP (fun a => decide (key a < key x)) = 0 := by
      rw [List.countP_eq_zero]
      intro a ha
      simpa using le_of_lt (hafter a ha)
    rw [List.countP_append, List.countP_cons_of_neg (by simp), hnone,
      List.countP_eq_length.mpr (by simpa using hb), Nat.add_zero]
  rw [hcount, List.take_append]
  constructor
  · intro hm
    by_contra hle
    rw [Nat.sub_eq_zero_of_le (Nat.le_of_not_lt hle), List.take_zero, List.append_nil] at hm
    exact lt_irrefl _ (hb x (List.mem_of_mem_take hm))
  · intro hlt
    apply List.mem_append_right
    obtain ⟨k, hk⟩ := Nat.exists_eq_add_of_lt hlt
    have hsub : n - before.length = k + 1 := by omega
    rw [hsub, List.take_succ_cons]
    exact List.mem_cons_self

/-- What is listed once is listed without repetition. -/
theorem nodup_eraseDups {α : Type} [DecidableEq α] (l : List α) : l.eraseDups.Nodup := by
  induction hn : l.length using Nat.strong_induction_on generalizing l with
  | _ n ih =>
    cases l with
    | nil => exact List.nodup_nil
    | cons a l =>
      have hlen : (l.filter fun b => !b == a).length < n := by
        have := List.length_filter_le (fun b => !b == a) l
        rw [List.length_cons] at hn
        omega
      rw [List.eraseDups_cons, List.nodup_cons]
      refine ⟨?_, ih _ hlen _ rfl⟩
      simp

theorem length_eraseDups_le {α : Type} [DecidableEq α] (l : List α) :
    l.eraseDups.length ≤ l.length :=
  ((nodup_eraseDups l).subperm fun _ ha => List.mem_eraseDups.mp ha).length_le

/-- One page asked for after another, each from the cursor of the last item of the page
before, until a page is empty. -/
inductive Pages (ask : Option κ → Except ε (List δ)) (next : δ → Option κ) :
    Option κ → List (List δ) → Prop where
  | done {cursor : Option κ} (empty : ask cursor = .ok []) : Pages ask next cursor []
  | more {cursor : Option κ} {page : List δ} {last : δ} {after : κ} {pages : List (List δ)}
      (asked : ask cursor = .ok page) (ends : page.getLast? = some last)
      (follows : next last = some after) (tail : Pages ask next (some after) pages) :
      Pages ask next cursor (page :: pages)

/-- The cursor of an item asks for what follows it in the full list. -/
structure Tiles (ask : Option κ → Except ε (List δ)) (next : δ → Option κ) (full : List δ)
    (n : Nat) : Prop where
  first : ask none = .ok (full.take n)
  after : ∀ before d rest, full = before ++ d :: rest →
    ∃ cursor, next d = some cursor ∧ ask (some cursor) = .ok (rest.take n)

namespace Tiles
variable {ask : Option κ → Except ε (List δ)} {next : δ → Option κ} {full : List δ} {n : Nat}

/-- After a page that ends in an item, what remains is asked for. -/
theorem step (h : Tiles ask next full n) {before rest : List δ} (hf : full = before ++ rest)
    {last : δ} (hl : (rest.take n).getLast? = some last) :
    ∃ cursor, next last = some cursor ∧ ask (some cursor) = .ok ((rest.drop n).take n) := by
  obtain ⟨init, hinit⟩ := List.getLast?_eq_some_iff.mp hl
  apply h.after (before ++ init) last
  calc full = before ++ (rest.take n ++ rest.drop n) := by rw [hf, List.take_append_drop]
    _ = before ++ init ++ last :: rest.drop n := by rw [hinit]; simp

theorem flatten_from (h : Tiles ask next full n) (hn : 0 < n) {cursor : Option κ}
    {pages : List (List δ)} (hp : Pages ask next cursor pages) {before rest : List δ}
    (hf : full = before ++ rest) (ha : ask cursor = .ok (rest.take n)) : pages.flatten = rest := by
  induction hp generalizing before rest with
  | done empty =>
    have he := Except.ok.inj (ha.symm.trans empty)
    rw [List.take_eq_nil_iff] at he
    rcases he with h0 | hr
    · omega
    · rw [hr]
      rfl
  | more asked ends follows tail ih =>
    obtain rfl := Except.ok.inj (ha.symm.trans asked)
    obtain ⟨cursor', hnext, hask⟩ := h.step hf ends
    obtain rfl := Option.some.inj (follows.symm.trans hnext)
    have hf' : full = (before ++ rest.take n) ++ rest.drop n := by
      rw [List.append_assoc, List.take_append_drop]
      exact hf
    rw [List.flatten_cons, ih hf' hask, List.take_append_drop]

/-- Any finished paging yields the full list, nothing lost and nothing repeated. -/
theorem flatten_eq (h : Tiles ask next full n) (hn : 0 < n) {pages : List (List δ)}
    (hp : Pages ask next none pages) : pages.flatten = full :=
  h.flatten_from hn hp (List.nil_append full).symm h.first

theorem pages_from (h : Tiles ask next full n) (hn : 0 < n) (size : Nat) {cursor : Option κ}
    {before rest : List δ} (hsize : rest.length ≤ size) (hf : full = before ++ rest)
    (ha : ask cursor = .ok (rest.take n)) : ∃ pages, Pages ask next cursor pages := by
  induction size generalizing cursor before rest with
  | zero =>
    have hr : rest = [] := List.length_eq_zero_iff.mp (Nat.le_zero.mp hsize)
    rw [hr, List.take_nil] at ha
    exact ⟨[], .done ha⟩
  | succ size ih =>
    cases hl : (rest.take n).getLast? with
    | none =>
      rw [List.getLast?_eq_none_iff] at hl
      rw [hl] at ha
      exact ⟨[], .done ha⟩
    | some last =>
      obtain ⟨after, hnext, hask⟩ := h.step hf hl
      have hf' : full = (before ++ rest.take n) ++ rest.drop n := by
        rw [List.append_assoc, List.take_append_drop]
        exact hf
      have hlen : (rest.drop n).length ≤ size := by
        rw [List.length_drop]
        omega
      obtain ⟨pages, hp⟩ := ih hlen hf' hask
      exact ⟨_, .more ha hl hnext hp⟩

/-- Paging comes to an end. -/
theorem exists_pages (h : Tiles ask next full n) (hn : 0 < n) :
    ∃ pages, Pages ask next none pages :=
  h.pages_from hn full.length (Nat.le_refl _) (List.nil_append full).symm h.first

end Tiles

section scans
variable {α β : Type} [LinearOrder β] {key : α → β}

/-- What lies behind a cursor. -/
def behind (key : α → β) (cursor : Option β) (full : List α) : List α :=
  full.filter fun a => cursor.all fun c => decide (c < key a)

/-- A page of a list as the list is when the page is asked for. -/
structure Look (α : Type) where
  full : List α
  size : Nat
  page : List α

/-- Pages asked for one after another, each behind the last key of the page before, until
nothing is left behind a page. The list may be another one each time. -/
inductive Scan (key : α → β) : Option β → List (Look α) → Prop where
  | last {cursor : Option β} {full : List α} {size : Nat}
      (fits : (behind key cursor full).length ≤ size) :
      Scan key cursor [⟨full, size, behind key cursor full⟩]
  | more {cursor : Option β} {full : List α} {size : Nat} {last : α} {looks : List (Look α)}
      (left : size < (behind key cursor full).length)
      (ends : ((behind key cursor full).take size).getLast? = some last)
      (tail : Scan key (some (key last)) looks) :
      Scan key cursor (⟨full, size, (behind key cursor full).take size⟩ :: looks)

/-- Elements under keys of their own, sorted by their keys. -/
theorem mergeSort_sorted {l : List α} (hn : (l.map key).Nodup) :
    (l.mergeSort fun a b => decide (key a ≤ key b)).Pairwise fun a b => key a < key b := by
  have htrans : ∀ a b c : α, decide (key a ≤ key b) = true → decide (key b ≤ key c) = true →
      decide (key a ≤ key c) = true := by
    intro a b c hab hbc
    rw [decide_eq_true_eq] at *
    exact le_trans hab hbc
  have htotal : ∀ a b : α, (decide (key a ≤ key b) || decide (key b ≤ key a)) = true := by
    intro a b
    rw [Bool.or_eq_true, decide_eq_true_eq, decide_eq_true_eq]
    exact le_total _ _
  have hle : (l.mergeSort fun a b => decide (key a ≤ key b)).Pairwise fun a b => key a ≤ key b :=
    (List.pairwise_mergeSort htrans htotal l).imp fun h => of_decide_eq_true h
  have hne : (l.mergeSort fun a b => decide (key a ≤ key b)).Pairwise fun a b => key a ≠ key b :=
    List.pairwise_map.mp (((List.mergeSort_perm l _).map key).nodup_iff.mpr hn)
  exact hle.imp₂ (fun _ _ => lt_of_le_of_ne) hne

theorem mem_behind {cursor : Option β} {full : List α} {a : α} :
    a ∈ behind key cursor full ↔ a ∈ full ∧ ∀ c, cursor = some c → c < key a := by
  rw [behind, List.mem_filter]
  cases cursor <;> simp

theorem behind_none (full : List α) : behind key none full = full :=
  List.filter_eq_self.mpr fun _ _ => rfl

theorem behind_sorted {full : List α} (hs : full.Pairwise fun a b => key a < key b)
    (cursor : Option β) : (behind key cursor full).Pairwise fun a b => key a < key b :=
  hs.filter _

/-- Behind the last key of a page lies what the page leaves. -/
theorem behind_last {cursor : Option β} {full before rest : List α} {last : α}
    (hs : full.Pairwise fun a b => key a < key b)
    (hb : behind key cursor full = before ++ rest) (hl : before.getLast? = some last) :
    behind key (some (key last)) full = rest := by
  have hsorted : (before ++ rest).Pairwise fun a b => key a < key b :=
    hb ▸ behind_sorted hs cursor
  obtain ⟨init, rfl⟩ := List.getLast?_eq_some_iff.mp hl
  have hlast : last ∈ behind key cursor full := by
    rw [hb]
    simp
  have hbehind : ∀ c, cursor = some c → c < key last := (mem_behind.mp hlast).2
  have hagain : behind key (some (key last)) full =
      behind key (some (key last)) (behind key cursor full) := by
    unfold behind
    rw [List.filter_filter]
    apply List.filter_congr
    intro a _
    by_cases ha : key last < key a
    · cases cursor with
      | none => simp [ha]
      | some c => simp [ha, lt_trans (hbehind c rfl) ha]
    · simp [ha]
  rw [hagain, hb, behind, List.filter_append]
  rw [List.pairwise_append, List.pairwise_append] at hsorted
  obtain ⟨⟨-, -, hinit⟩, -, hrest⟩ := hsorted
  have hnone : (init ++ [last]).filter
      (fun a => (some (key last)).all fun c => decide (c < key a)) = [] := by
    apply List.filter_eq_nil_iff.mpr
    intro a ha
    rcases List.mem_append.mp ha with ha | ha
    · have hlt := hinit a ha last (List.mem_singleton.mpr rfl)
      simpa using le_of_lt hlt
    · rw [List.mem_singleton.mp ha]
      simp
  have hall : rest.filter (fun a => (some (key last)).all fun c => decide (c < key a)) = rest := by
    apply List.filter_eq_self.mpr
    intro a ha
    have hlt := hrest last (List.mem_append_right _ (List.mem_singleton.mpr rfl)) a ha
    simpa using hlt
  rw [hnone, hall, List.nil_append]

namespace Scan
variable {cursor : Option β} {looks : List (Look α)}

theorem mem_page (h : Scan key cursor looks) {look : Look α} (hl : look ∈ looks) {a : α}
    (ha : a ∈ look.page) : ∀ c, cursor = some c → c < key a := by
  induction h with
  | last fits =>
    rw [List.mem_singleton] at hl
    subst hl
    exact (mem_behind.mp ha).2
  | @more cursor full size last looks left ends tail ih =>
    rcases List.mem_cons.mp hl with rfl | hl
    · exact (mem_behind.mp (List.mem_of_mem_take ha)).2
    · intro c hc
      have hlast := List.mem_of_mem_take (List.mem_of_getLast? ends)
      exact lt_trans ((mem_behind.mp hlast).2 c hc) (ih hl (key last) rfl)

/-- The pages go on in order. -/
theorem sorted (h : Scan key cursor looks)
    (hs : ∀ look ∈ looks, look.full.Pairwise fun a b => key a < key b) :
    (looks.flatMap Look.page).Pairwise fun a b => key a < key b := by
  induction h with
  | last fits =>
    rw [List.flatMap_singleton]
    exact behind_sorted (hs _ (List.mem_singleton.mpr rfl)) _
  | @more cursor full size last looks left ends tail ih =>
    rw [List.forall_mem_cons] at hs
    rw [List.flatMap_cons, List.pairwise_append]
    have hpage := (behind_sorted hs.1 cursor).sublist (List.take_sublist size _)
    refine ⟨hpage, ih hs.2, fun a ha b hb => ?_⟩
    obtain ⟨look, hl, hb⟩ := List.mem_flatMap.mp hb
    have hlt := tail.mem_page hl hb (key last) rfl
    obtain ⟨init, hinit⟩ := List.getLast?_eq_some_iff.mp ends
    rw [hinit] at ha
    rw [hinit, List.pairwise_append] at hpage
    rcases List.mem_append.mp ha with ha | ha
    · exact lt_trans (hpage.2.2 a ha last (List.mem_singleton.mpr rfl)) hlt
    · rw [List.mem_singleton.mp ha]
      exact hlt

/-- A key that is always there is on one of the pages. -/
theorem covers (h : Scan key cursor looks)
    (hs : ∀ look ∈ looks, look.full.Pairwise fun a b => key a < key b) {k : β}
    (hk : ∀ look ∈ looks, k ∈ look.full.map key) (hc : ∀ c, cursor = some c → c < k) :
    k ∈ (looks.flatMap Look.page).map key := by
  induction h with
  | last fits =>
    obtain ⟨a, ha, rfl⟩ := List.mem_map.mp (hk _ (List.mem_singleton.mpr rfl))
    rw [List.flatMap_singleton]
    exact List.mem_map_of_mem (mem_behind.mpr ⟨ha, hc⟩)
  | @more cursor full size last looks left ends tail ih =>
    rw [List.forall_mem_cons] at hs hk
    obtain ⟨a, ha, rfl⟩ := List.mem_map.mp hk.1
    rw [List.flatMap_cons, List.map_append, List.mem_append]
    have hbehind : a ∈ behind key cursor full := mem_behind.mpr ⟨ha, hc⟩
    rw [← List.take_append_drop size (behind key cursor full), List.mem_append] at hbehind
    rcases hbehind with htake | hdrop
    · exact .inl (List.mem_map_of_mem htake)
    · refine .inr (ih hs.2 hk.2 fun c hcursor => ?_)
      obtain rfl := Option.some.inj hcursor
      have hsorted := behind_sorted hs.1 cursor
      rw [← List.take_append_drop size (behind key cursor full), List.pairwise_append] at hsorted
      exact hsorted.2.2 last (List.mem_of_getLast? ends) a hdrop

/-- The pages of a list that stays as it is are what lies behind the cursor. -/
theorem flatMap_eq (h : Scan key cursor looks) {full : List α}
    (hs : full.Pairwise fun a b => key a < key b) (hf : ∀ look ∈ looks, look.full = full) :
    looks.flatMap Look.page = behind key cursor full := by
  induction h with
  | last fits =>
    obtain rfl := hf _ (List.mem_singleton.mpr rfl)
    exact List.flatMap_singleton _ _
  | more left ends tail ih =>
    rw [List.forall_mem_cons] at hf
    obtain ⟨rfl, hf⟩ := hf
    rw [List.flatMap_cons, ih hf, behind_last hs (List.take_append_drop _ _).symm ends,
      List.take_append_drop]

/-- A list that stays as it is is scanned to its end. -/
theorem complete {full : List α} (hs : full.Pairwise fun a b => key a < key b) {size : Nat}
    (hsize : 0 < size) (bound : Nat) {cursor : Option β}
    (hb : (behind key cursor full).length ≤ bound) :
    ∃ looks, Scan key cursor looks ∧ ∀ look ∈ looks, look.full = full ∧ look.size = size := by
  induction bound generalizing cursor with
  | zero =>
    refine ⟨_, .last (Nat.le_trans hb (Nat.zero_le size)), fun look hl => ?_⟩
    rw [List.mem_singleton.mp hl]
    exact ⟨rfl, rfl⟩
  | succ bound ih =>
    by_cases hlen : (behind key cursor full).length ≤ size
    · refine ⟨_, .last hlen, fun look hl => ?_⟩
      rw [List.mem_singleton.mp hl]
      exact ⟨rfl, rfl⟩
    · rw [Nat.not_le] at hlen
      have hne : (behind key cursor full).take size ≠ [] := by
        intro he
        rcases List.take_eq_nil_iff.mp he with h0 | h0
        · omega
        · rw [h0] at hlen
          exact Nat.not_lt_zero _ hlen
      have hlast := List.getLast?_eq_some_getLast hne
      have hnext := behind_last hs (List.take_append_drop size _).symm hlast
      obtain ⟨looks, hscan, heach⟩ := @ih
        (some (key (((behind key cursor full).take size).getLast hne))) (by
          rw [hnext, List.length_drop]
          omega)
      refine ⟨_ :: looks, .more hlen hlast hscan, ?_⟩
      rw [List.forall_mem_cons]
      exact ⟨⟨rfl, rfl⟩, heach⟩

end Scan
end scans
end FirebaseEmu.Lib
