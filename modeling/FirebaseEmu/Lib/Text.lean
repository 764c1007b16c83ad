import Mathlib.Data.List.Basic
import Mathlib.Data.List.DropRight
import Mathlib.Data.List.TakeDrop
import Mathlib.Data.String.Basic

namespace FirebaseEmu.Lib

/-- The pieces of a text between separators; a text without one is its own piece. -/
def split (sep : Char) (s : String) : List String := (s.toList.splitOn sep).map String.ofList

def join (sep : Char) (parts : List String) : String :=
  String.ofList ([sep].intercalate (parts.map String.toList))

def startsWith (s pre : String) : Bool := pre.toList.isPrefixOf s.toList

def stripPrefix (s pre : String) : Option String :=
  if startsWith s pre then some (String.ofList (s.toList.drop pre.toList.length)) else none

def endsWith (s suf : String) : Bool := suf.toList.isSuffixOf s.toList

def stripSuffix (s suf : String) : Option String :=
  if suf.toList.isSuffixOf s.toList then
    some (String.ofList (s.toList.take (s.toList.length - suf.toList.length)))
  else none

/-- The texts before and after the first separator. -/
def splitOnce (sep : Char) (s : String) : Option (String × String) :=
  let (before, after) := s.toList.span (· ≠ sep)
  match after with
  | [] => none
  | _ :: after => some (String.ofList before, String.ofList after)

def trimEnd (sep : Char) (s : String) : String :=
  String.ofList (s.toList.rdropWhile (· == sep))

/-- The text with ASCII letters in lower case, as SQLite's `lower` folds it. -/
def asciiLower (text : String) : List Char := text.toList.map Char.toLower

def eqIgnoreAsciiCase (a b : String) : Bool := asciiLower a == asciiLower b

/-- `char::is_whitespace`. -/
def isWhitespace (c : Char) : Bool :=
  let n := c.toNat
  (9 ≤ n && n ≤ 13) || n == 0x20 || n == 0x85 || n == 0xA0 || n == 0x1680 ||
    (0x2000 ≤ n && n ≤ 0x200A) || n == 0x2028 || n == 0x2029 || n == 0x202F || n == 0x205F ||
    n == 0x3000

/-- `trim_matches`: the text without such characters at its two ends. -/
def trimMatches (p : Char → Bool) (s : String) : String :=
  String.ofList ((s.toList.dropWhile p).rdropWhile p)

def trim (s : String) : String := trimMatches isWhitespace s

/-- `str::lines`: pieces between line feeds, without the carriage return before one; a last piece
is a line when it is not empty. -/
def lines (s : String) : List String :=
  let pieces := split '\n' s
  let last := pieces.getLast?.filter fun piece => !piece.isEmpty
  (pieces.dropLast.map fun piece => (stripSuffix piece "\r").getD piece) ++ last.toList

/-- Every occurrence of a character replaced by a text. -/
def replace (c : Char) (text s : String) : String :=
  String.ofList (s.toList.flatMap fun d => if d = c then text.toList else [d])

theorem dropWhile_append_of_kept {p : Char → Bool} {a : List Char} (h : a.dropWhile p = a)
    (hne : a ≠ []) (b : List Char) : (a ++ b).dropWhile p = a ++ b := by
  rw [List.dropWhile_append, h, if_neg (by simpa using hne)]

theorem rdropWhile_append_of_kept {p : Char → Bool} {b : List Char} (h : b.rdropWhile p = b)
    (hne : b ≠ []) (a : List Char) : (a ++ b).rdropWhile p = a ++ b := by
  have hrev : b.reverse.dropWhile p = b.reverse := List.reverse_eq_iff.mp h
  rw [List.rdropWhile, List.reverse_append, dropWhile_append_of_kept hrev (by simpa using hne),
    List.reverse_append, List.reverse_reverse, List.reverse_reverse]

/-- A text loses nothing at either end when the whole is kept. -/
theorem trimMatches_eq_self {p : Char → Bool} {s : String} (h : trimMatches p s = s) :
    s.toList.dropWhile p = s.toList ∧ s.toList.rdropWhile p = s.toList := by
  have hlist : (s.toList.dropWhile p).rdropWhile p = s.toList := by
    rw [trimMatches, ← String.toList_inj, String.toList_ofList] at h
    exact h
  have hsuffix : s.toList.dropWhile p <:+ s.toList := List.dropWhile_suffix p
  have hlen : s.toList.length ≤ (s.toList.dropWhile p).length := by
    have := (List.rdropWhile_prefix p (s.toList.dropWhile p)).length_le
    rwa [hlist] at this
  have hdrop := hsuffix.eq_of_length_le hlen
  rw [hdrop] at hlist
  exact ⟨hdrop, hlist⟩

/-- A text whose two ends are kept is kept whole. -/
theorem trimMatches_between {p : Char → Bool} {a c : String} (ha : trimMatches p a = a)
    (hc : trimMatches p c = c) (hane : a ≠ "") (hcne : c ≠ "") (b : String) :
    trimMatches p (a ++ b ++ c) = a ++ b ++ c := by
  have hane : a.toList ≠ [] := by simpa using hane
  have hcne : c.toList ≠ [] := by simpa using hcne
  have hstart := dropWhile_append_of_kept (trimMatches_eq_self ha).1 hane (b.toList ++ c.toList)
  have hstop := rdropWhile_append_of_kept (trimMatches_eq_self hc).2 hcne (a.toList ++ b.toList)
  rw [List.append_assoc] at hstop
  rw [trimMatches, ← String.toList_inj, String.toList_ofList, String.toList_append,
    String.toList_append, List.append_assoc, hstart, hstop]

/-- Of a kept text between such characters only these are lost. -/
theorem trimMatches_padded {p : Char → Bool} {a b c : String} (hb : trimMatches p b = b)
    (hbne : b ≠ "") (ha : a.toList.all p = true) (hc : c.toList.all p = true) :
    trimMatches p (a ++ b ++ c) = b := by
  rw [List.all_eq_true] at ha hc
  have hbne : b.toList ≠ [] := by simpa using hbne
  obtain ⟨hstart, hstop⟩ := trimMatches_eq_self hb
  rw [trimMatches, ← String.toList_inj, String.toList_ofList, String.toList_append,
    String.toList_append, List.append_assoc, List.dropWhile_append_of_pos ha,
    dropWhile_append_of_kept hstart hbne, List.rdropWhile, List.reverse_append,
    List.dropWhile_append_of_pos (by simpa using hc)]
  exact hstop

theorem trimMatches_of_all_not {p : Char → Bool} {s : String} (h : ∀ c ∈ s.toList, p c = false) :
    trimMatches p s = s := by
  have hstart : s.toList.dropWhile p = s.toList := by
    rw [List.dropWhile_eq_self_iff]
    intro hl
    simpa using h _ (List.getElem_mem hl)
  have hstop : s.toList.rdropWhile p = s.toList := by
    rw [List.rdropWhile_eq_self_iff]
    intro hl
    simpa using h _ (List.getLast_mem hl)
  rw [trimMatches, hstart, hstop, String.ofList_toList]

theorem startsWith_iff (s pre : String) : startsWith s pre = true ↔ ∃ rest, s = pre ++ rest := by
  simp only [startsWith, List.isPrefixOf_iff_prefix]
  constructor
  · rintro ⟨rest, h⟩
    refine ⟨String.ofList rest, ?_⟩
    rw [← String.toList_inj, String.toList_append, String.toList_ofList, h]
  · rintro ⟨rest, rfl⟩
    exact ⟨rest.toList, by rw [String.toList_append]⟩

theorem stripPrefix_append (pre rest : String) : stripPrefix (pre ++ rest) pre = some rest := by
  have hs : startsWith (pre ++ rest) pre = true := (startsWith_iff _ _).mpr ⟨rest, rfl⟩
  rw [stripPrefix, if_pos hs, String.toList_append, List.drop_left, String.ofList_toList]

theorem endsWith_iff (s suf : String) : endsWith s suf = true ↔ ∃ start, s = start ++ suf := by
  simp only [endsWith, List.isSuffixOf_iff_suffix]
  constructor
  · rintro ⟨start, h⟩
    refine ⟨String.ofList start, ?_⟩
    rw [← String.toList_inj, String.toList_append, String.toList_ofList, h]
  · rintro ⟨start, rfl⟩
    exact ⟨start.toList, by rw [String.toList_append]⟩

theorem stripSuffix_append (start suf : String) : stripSuffix (start ++ suf) suf = some start := by
  have hs : suf.toList.isSuffixOf (start ++ suf).toList = true :=
    (endsWith_iff _ _).mpr ⟨start, rfl⟩
  rw [stripSuffix, if_pos hs, String.toList_append, List.length_append, Nat.add_sub_cancel,
    List.take_left, String.ofList_toList]

theorem stripPrefix_eq_some {s pre rest : String} :
    stripPrefix s pre = some rest ↔ s = pre ++ rest := by
  constructor
  · intro h
    by_cases hs : startsWith s pre = true
    · obtain ⟨more, rfl⟩ := (startsWith_iff s pre).mp hs
      rw [stripPrefix_append] at h
      rw [Option.some.inj h]
    · rw [stripPrefix, if_neg hs] at h
      cases h
  · rintro rfl
    exact stripPrefix_append pre rest

theorem stripSuffix_eq_some {s suf start : String} :
    stripSuffix s suf = some start ↔ s = start ++ suf := by
  constructor
  · intro h
    by_cases hs : endsWith s suf = true
    · obtain ⟨more, rfl⟩ := (endsWith_iff s suf).mp hs
      rw [stripSuffix_append] at h
      rw [Option.some.inj h]
    · have hs : ¬ suf.toList.isSuffixOf s.toList = true := hs
      rw [stripSuffix, if_neg hs] at h
      cases h
  · rintro rfl
    exact stripSuffix_append start suf

theorem toList_ofList_comp : String.toList ∘ String.ofList = id :=
  funext fun _ => String.toList_ofList

theorem ofList_toList_comp : String.ofList ∘ String.toList = id :=
  funext fun _ => String.ofList_toList

theorem split_ne_nil (sep : Char) (s : String) : split sep s ≠ [] := by
  simp [split, List.splitOn_ne_nil]

theorem join_split (sep : Char) (s : String) : join sep (split sep s) = s := by
  rw [join, split, List.map_map, toList_ofList_comp, List.map_id, List.intercalate_splitOn,
    String.ofList_toList]

/-- A text is cut at each separator, wherever the texts around it came from. -/
theorem split_append (sep : Char) (a b : String) :
    split sep (a ++ String.singleton sep ++ b) = split sep a ++ split sep b := by
  simp only [split, String.toList_append, String.toList_singleton, List.append_assoc,
    List.singleton_append]
  rw [List.splitOn_append_cons_self, List.map_append]

theorem splitOn_pieces (sep : Char) (cs : List Char) : ∀ piece ∈ cs.splitOn sep, sep ∉ piece := by
  induction cs with
  | nil => simp
  | cons c cs ih =>
    intro piece hm
    rw [List.splitOn_cons_eq_if_modifyHead] at hm
    split at hm
    · rcases List.mem_cons.mp hm with rfl | hm
      · simp
      · exact ih piece hm
    · rename_i hc
      cases hp : cs.splitOn sep with
      | nil => exact absurd hp (List.splitOn_ne_nil sep cs)
      | cons head tail =>
        rw [hp] at ih hm
        rcases List.mem_cons.mp hm with rfl | hm
        · have hne : sep ≠ c := fun he => hc (by simp [he])
          simpa [hne] using ih head List.mem_cons_self
        · exact ih piece (List.mem_cons_of_mem _ hm)

/-- Some leading pieces of a text, joined again, split into those same pieces. -/
theorem split_join_take (sep : Char) (s : String) {n : Nat} (hn : 0 < n) :
    split sep (join sep ((split sep s).take n)) = (split sep s).take n := by
  have hne : (s.toList.splitOn sep).take n ≠ [] := by
    simp [List.splitOn_ne_nil, Nat.ne_of_gt hn]
  have hp : ∀ piece ∈ (s.toList.splitOn sep).take n, sep ∉ piece :=
    fun piece hm => splitOn_pieces sep _ piece (List.mem_of_mem_take hm)
  simp only [split, join, ← List.map_take, List.map_map, toList_ofList_comp, List.map_id,
    String.toList_ofList]
  rw [List.splitOn_intercalate sep hp hne]

theorem splitOnce_append {sep : Char} {before : String} (h : sep ∉ before.toList)
    (after : String) : splitOnce sep (before ++ String.singleton sep ++ after) =
      some (before, after) := by
  have hkept : ∀ c ∈ before.toList, decide (c ≠ sep) = true :=
    fun c hc => decide_eq_true fun he => h (he ▸ hc)
  have hlist : (before ++ String.singleton sep ++ after).toList =
      before.toList ++ sep :: after.toList := by
    simp [List.append_assoc]
  unfold splitOnce
  rw [hlist, List.span_eq_takeWhile_dropWhile, List.takeWhile_append_of_pos hkept,
    List.dropWhile_append_of_pos hkept]
  simp

theorem splitOnce_of_not_mem {sep : Char} {s : String} (h : sep ∉ s.toList) :
    splitOnce sep s = none := by
  have hkept : ∀ c ∈ s.toList, decide (c ≠ sep) = true :=
    fun c hc => decide_eq_true fun he => h (he ▸ hc)
  have hnil : s.toList.dropWhile (fun c => decide (c ≠ sep)) = [] :=
    List.dropWhile_eq_nil_iff.mpr hkept
  unfold splitOnce
  rw [List.span_eq_takeWhile_dropWhile, hnil]

/-- The first separator parts a text. -/
theorem splitOnce_eq_some {sep : Char} {s before after : String} :
    splitOnce sep s = some (before, after) ↔
      s = before ++ String.singleton sep ++ after ∧ sep ∉ before.toList := by
  constructor
  · intro h
    by_cases hm : sep ∈ s.toList
    · obtain ⟨as, bs, hs, ha⟩ := List.eq_append_cons_of_mem hm
      have hparts : s = String.ofList as ++ String.singleton sep ++ String.ofList bs := by
        rw [← String.toList_inj, hs]
        simp
      have hfree : sep ∉ (String.ofList as).toList := by rwa [String.toList_ofList]
      rw [hparts, splitOnce_append hfree, Option.some.injEq, Prod.mk.injEq] at h
      obtain ⟨rfl, rfl⟩ := h
      exact ⟨hparts, hfree⟩
    · rw [splitOnce_of_not_mem hm] at h
      cases h
  · rintro ⟨rfl, hn⟩
    exact splitOnce_append hn after

theorem split_pieces (sep : Char) (s : String) : ∀ piece ∈ split sep s, sep ∉ piece.toList := by
  intro piece hm
  obtain ⟨cs, hcs, rfl⟩ := List.mem_map.mp hm
  rw [String.toList_ofList]
  exact splitOn_pieces sep _ cs hcs

/-- Pieces without a separator in them, joined, split into themselves. -/
theorem split_join (sep : Char) {parts : List String} (hne : parts ≠ [])
    (h : ∀ part ∈ parts, sep ∉ part.toList) : split sep (join sep parts) = parts := by
  have hp : ∀ piece ∈ parts.map String.toList, sep ∉ piece := by
    intro piece hm
    obtain ⟨part, hpart, rfl⟩ := List.mem_map.mp hm
    exact h part hpart
  rw [split, join, String.toList_ofList, List.splitOn_intercalate sep hp (by simpa using hne),
    List.map_map, ofList_toList_comp, List.map_id]

theorem split_of_not_mem (sep : Char) {s : String} (h : sep ∉ s.toList) : split sep s = [s] := by
  have hj : join sep [s] = s := by simp [join]
  have hs : split sep (join sep [s]) = [s] := split_join sep (by simp) (by simpa using h)
  rwa [hj] at hs

/-- A text of one piece has no separator. -/
theorem not_mem_of_length_split (sep : Char) {s : String} (h : (split sep s).length = 1) :
    sep ∉ s.toList := by
  obtain ⟨piece, hp⟩ := List.length_eq_one_iff.mp h
  have hs : s = piece := by
    rw [← join_split sep s, hp]
    simp [join]
  rw [hs]
  exact split_pieces sep s piece (by simp [hp])

/-- Separators at the end cut off nothing that was there before them. -/
theorem split_trimEnd (sep : Char) (s : String) :
    ∃ more, split sep s = split sep (trimEnd sep s) ++ more := by
  have hs : s.toList = (trimEnd sep s).toList ++ s.toList.rtakeWhile (· == sep) := by
    rw [trimEnd, String.toList_ofList, List.rdropWhile_append_rtakeWhile]
  have hall : ∀ c ∈ s.toList.rtakeWhile (· == sep), c = sep := by
    intro c hc
    simpa using List.mem_rtakeWhile_imp hc
  cases ht : s.toList.rtakeWhile (· == sep) with
  | nil =>
    rw [ht, List.append_nil, String.toList_inj] at hs
    exact ⟨[], by rw [← hs, List.append_nil]⟩
  | cons c cs =>
    rw [ht] at hs hall
    obtain rfl := hall c List.mem_cons_self
    refine ⟨split c (String.ofList cs), ?_⟩
    rw [← split_append]
    congr 1
    rw [← String.toList_inj, hs]
    simp

theorem join_cons (sep : Char) (x : String) {xs : List String} (h : xs ≠ []) :
    join sep (x :: xs) = x ++ String.singleton sep ++ join sep xs := by
  have hm : xs.map String.toList ≠ [] := by simpa using h
  rw [join, List.map_cons, List.intercalate_cons_of_ne_nil hm, ← String.toList_inj]
  simp [join]

theorem join_append (sep : Char) {xs ys : List String} (hx : xs ≠ []) (hy : ys ≠ []) :
    join sep (xs ++ ys) = join sep xs ++ String.singleton sep ++ join sep ys := by
  induction xs with
  | nil => exact absurd rfl hx
  | cons x xs ih =>
    cases xs with
    | nil =>
      rw [List.cons_append, List.nil_append, join_cons sep x hy]
      simp [join]
    | cons x' xs =>
      rw [List.cons_append, join_cons sep x (by simp), ih (by simp), join_cons sep x (by simp)]
      simp only [String.append_assoc]

theorem not_append_lt (pre rest : List Char) : ¬ pre ++ rest < pre := by
  induction pre with
  | nil => simp
  | cons c pre ih => simpa [List.cons_lt_cons_iff] using ih

/-- What lies between a text and one of its extensions extends the text. -/
theorem prefix_of_between {pre a rest : List Char} (hle : ¬ a < pre) (hlt : a < pre ++ rest) :
    pre <+: a := by
  induction pre generalizing a with
  | nil => exact List.nil_prefix
  | cons c pre ih =>
    cases a with
    | nil => simp at hle
    | cons x a =>
      simp only [List.cons_append, List.cons_lt_cons_iff, not_or, not_and] at hle hlt
      rcases hlt with hlt | ⟨rfl, hlt⟩
      · exact absurd hlt hle.1
      · exact List.cons_prefix_cons.mpr ⟨rfl, ih (hle.2 rfl) hlt⟩

theorem not_lt_of_startsWith {s pre : String} (h : startsWith s pre = true) : ¬ s < pre := by
  obtain ⟨rest, rfl⟩ := (startsWith_iff s pre).mp h
  rw [String.lt_iff_toList_lt, String.toList_append]
  exact not_append_lt _ _

theorem startsWith_of_between {s t pre : String} (hle : ¬ s < pre) (hlt : s < t)
    (ht : startsWith t pre = true) : startsWith s pre = true := by
  obtain ⟨rest, rfl⟩ := (startsWith_iff t pre).mp ht
  rw [String.lt_iff_toList_lt] at hle hlt
  rw [String.toList_append] at hlt
  exact List.isPrefixOf_iff_prefix.mpr (prefix_of_between hle hlt)

/-- In key order, the entries whose key has a prefix are the range that starts there. -/
theorem prefix_range {α : Type} {entries : List (String × α)}
    (hs : entries.Pairwise fun a b => a.1 < b.1) (pre : String) :
    ((entries.dropWhile fun entry => decide (entry.1 < pre)).takeWhile fun entry =>
        startsWith entry.1 pre) =
      entries.filter fun entry => startsWith entry.1 pre := by
  -- past the start of the range, the first key without the prefix ends it
  have hrange : ∀ {entries : List (String × α)}, (entries.Pairwise fun a b => a.1 < b.1) →
      (∀ entry ∈ entries, ¬ entry.1 < pre) →
      (entries.takeWhile fun entry => startsWith entry.1 pre) =
        entries.filter fun entry => startsWith entry.1 pre := by
    intro entries hs hge
    induction entries with
    | nil => rfl
    | cons head tail ih =>
      obtain ⟨hhead, htail⟩ := List.pairwise_cons.mp hs
      have ih := ih htail fun entry hm => hge entry (List.mem_cons_of_mem _ hm)
      cases hp : startsWith head.1 pre with
      | true => simp [hp, ih]
      | false =>
        have hnone : tail.filter (fun entry => startsWith entry.1 pre) = [] := by
          rw [List.filter_eq_nil_iff]
          intro entry hm ht
          have := startsWith_of_between (hge head List.mem_cons_self) (hhead entry hm) ht
          simp [hp] at this
        simp [hp, hnone]
  induction entries with
  | nil => rfl
  | cons head tail ih =>
    obtain ⟨hhead, htail⟩ := List.pairwise_cons.mp hs
    by_cases hlt : head.1 < pre
    · have hp : startsWith head.1 pre = false := by
        by_contra hp
        exact not_lt_of_startsWith (by simpa using hp) hlt
      rw [List.dropWhile_cons_of_pos (p := fun entry : String × α => decide (entry.1 < pre))
        (decide_eq_true hlt), ih htail, List.filter_cons_of_neg (by simp [hp])]
    · rw [List.dropWhile_cons_of_neg (p := fun entry : String × α => decide (entry.1 < pre))
        (by simpa only [decide_eq_true_eq] using hlt)]
      refine hrange hs fun entry hm => ?_
      rcases List.mem_cons.mp hm with rfl | hm
      · exact hlt
      · exact fun h => hlt (lt_trans (hhead entry hm) h)

end FirebaseEmu.Lib
