import FirebaseEmu.Lib.Entries
import FirebaseEmu.Lib.Json
import FirebaseEmu.Lib.Text
import FirebaseEmu.Lib.Utf8

namespace FirebaseEmu.Functions
open Lib

/-- `text.is_char_boundary(place)`. -/
def isCharBoundary (text : String) (place : Nat) : Bool :=
  place ≤ (textBytes text).length && (ofUtf8 ((textBytes text).take place)).isSome

/-- `&text[start..stop]`; `none` is a panic. -/
def sliceText (text : String) (start stop : Nat) : Option String :=
  if start ≤ stop ∧ isCharBoundary text start ∧ isCharBoundary text stop then
    ofUtf8 (((textBytes text).take stop).drop start)
  else none

def isWildcard (segment : String) : Bool :=
  startsWith segment "\x7b" && endsWith segment "\x7d" && 2 < (textBytes segment).length

/-- The loop over the segments of a pattern and of a path; the outer `none` is a panic. -/
def wildcardLoop :
    List (String × String) → List (String × Json) → Option (Option (List (String × Json)))
  | [], params => some (some params)
  | (a, b) :: rest, params =>
    if isWildcard a then do
      let name ← sliceText a 1 ((textBytes a).length - 1)
      wildcardLoop rest (insertKey name (.string b) params)
    else if a ≠ b then some none
    else wildcardLoop rest params

def wildcardParams (pattern path : String) : Option (Option Json) :=
  let pattern := split '/' pattern
  let path := split '/' path
  if pattern.length ≠ path.length then some none
  else (wildcardLoop (pattern.zip path) []).map fun params => params.map .object

/-- The name between the braces of a wildcard segment. Empty braces are a literal. -/
def wildcardName (segment : String) : Option String :=
  ((stripPrefix segment "\x7b").bind (stripSuffix · "\x7d")).filter fun name => !name.isEmpty

/-- A segment of a pattern with the value of its wildcard in place of it. -/
def fill (assignment : String → String) (segment : String) : String :=
  ((wildcardName segment).map assignment).getD segment

def wildcardNames (pattern : String) : List String := (split '/' pattern).filterMap wildcardName

def substitute (assignment : String → String) (pattern : String) : String :=
  Lib.join '/' ((split '/' pattern).map (fill assignment))

/-- Values without a slash for the wildcards turn the pattern into the path. -/
structure Turns (assignment : String → String) (pattern path : String) : Prop where
  slashFree : ∀ name ∈ wildcardNames pattern, '/' ∉ (assignment name).toList
  filled : substitute assignment pattern = path

/-- The parameters are the names with their values, and nothing else. -/
def AreParams (params : Json) (names : List String) (assignment : String → String) : Prop :=
  ∃ entries, params = .object entries ∧ KeyOrdered entries ∧
    ∀ name, entries.lookup name = if name ∈ names then some (.string (assignment name)) else none

/-- The assignment that parameters are. -/
def assigned (params : Json) (name : String) : String := ((params.get name).asStr).getD ""

theorem wildcardName_eq_some {segment name : String} :
    wildcardName segment = some name ↔ segment = "\x7b" ++ name ++ "\x7d" ∧ name ≠ "" := by
  rw [wildcardName, Option.filter_eq_some_iff, Option.bind_eq_some_iff]
  constructor
  · rintro ⟨⟨rest, hrest, hname⟩, hne⟩
    rw [stripPrefix_eq_some] at hrest
    rw [stripSuffix_eq_some] at hname
    refine ⟨?_, by simpa using hne⟩
    rw [hrest, hname, String.append_assoc]
  · rintro ⟨rfl, hne⟩
    refine ⟨⟨name ++ "\x7d", ?_, ?_⟩, by simpa using hne⟩
    · rw [String.append_assoc]
      exact stripPrefix_append _ _
    · exact stripSuffix_append _ _

theorem textBytes_open : textBytes "\x7b" = [123] := by decide

theorem textBytes_close : textBytes "\x7d" = [125] := by decide

/-- The code's test is that there is a name between the braces. -/
theorem isWildcard_iff (segment : String) :
    isWildcard segment = true ↔ ∃ name, wildcardName segment = some name := by
  simp only [isWildcard, Bool.and_eq_true, decide_eq_true_eq]
  constructor
  · rintro ⟨⟨hopen, hclose⟩, hlen⟩
    obtain ⟨rest, rfl⟩ := (startsWith_iff _ _).mp hopen
    obtain ⟨start, hstart⟩ := (endsWith_iff _ _).mp hclose
    -- the closing brace is not the opening one
    have hend : ∃ name, rest = name ++ "\x7d" := by
      have hlist := congrArg String.toList hstart
      simp only [String.toList_append] at hlist
      cases hs : start.toList with
      | nil =>
        rw [hs] at hlist
        simp at hlist
      | cons c cs =>
        rw [hs] at hlist
        refine ⟨String.ofList cs, ?_⟩
        rw [← String.toList_inj, String.toList_append, String.toList_ofList]
        simp only [String.reduceToList, List.cons_append, List.nil_append, List.cons.injEq] at hlist
        exact hlist.2
    obtain ⟨name, rfl⟩ := hend
    refine ⟨name, wildcardName_eq_some.mpr ⟨?_, ?_⟩⟩
    · rw [String.append_assoc]
    · rintro rfl
      exact absurd hlen (by decide)
  · rintro ⟨name, hname⟩
    obtain ⟨rfl, hne⟩ := wildcardName_eq_some.mp hname
    have hpos : textBytes name ≠ [] := by
      intro h
      rw [textBytes_eq, encode_eq_nil] at h
      exact hne (String.toList_inj.mp h)
    refine ⟨⟨?_, ?_⟩, ?_⟩
    · rw [startsWith_iff]
      exact ⟨name ++ "\x7d", String.append_assoc ..⟩
    · rw [endsWith_iff]
      exact ⟨"\x7b" ++ name, rfl⟩
    · have hlen := List.length_pos_iff.mpr hpos
      simp only [textBytes_append, textBytes_open, textBytes_close, List.length_append,
        List.length_singleton]
      omega

/-- The slice of a wildcard segment by bytes is its name, whatever characters it has. -/
theorem sliceText_name {segment name : String} (h : wildcardName segment = some name) :
    sliceText segment 1 ((textBytes segment).length - 1) = some name := by
  obtain ⟨rfl, -⟩ := wildcardName_eq_some.mp h
  have hbytes : textBytes ("\x7b" ++ name ++ "\x7d") = [123] ++ textBytes name ++ [125] := by
    rw [textBytes_append, textBytes_append, textBytes_open, textBytes_close]
  have hlen : (textBytes ("\x7b" ++ name ++ "\x7d")).length - 1 = 1 + (textBytes name).length := by
    rw [hbytes]
    simp
    omega
  have hhead : (textBytes ("\x7b" ++ name ++ "\x7d")).take 1 = textBytes "\x7b" := by
    rw [hbytes, textBytes_open]
    rfl
  have hinit : (textBytes ("\x7b" ++ name ++ "\x7d")).take (1 + (textBytes name).length) =
      textBytes ("\x7b" ++ name) := by
    rw [hbytes, textBytes_append, textBytes_open]
    exact List.take_left' (by simp; omega)
  have hstart : isCharBoundary ("\x7b" ++ name ++ "\x7d") 1 = true := by
    rw [isCharBoundary, hhead, ofUtf8_eq_some.mpr rfl, hbytes]
    simp
  have hstop : isCharBoundary ("\x7b" ++ name ++ "\x7d") (1 + (textBytes name).length) = true := by
    rw [isCharBoundary, hinit, ofUtf8_eq_some.mpr rfl, hbytes]
    simp
    omega
  rw [hlen, sliceText, if_pos ⟨Nat.le_add_right _ _, hstart, hstop⟩, hinit, textBytes_append,
    textBytes_open]
  exact ofUtf8_eq_some.mpr rfl

example : wildcardNames "\x7b\x7d/\x7b/\x7bé\x7d" = ["é"] := by decide

/-- The names in the segments of a pattern, next to those of a path. -/
def segmentNames (segments : List (String × String)) : List String :=
  segments.filterMap fun segment => wildcardName segment.1

theorem segmentNames_literal {a : String} (h : wildcardName a = none) (b : String)
    (rest : List (String × String)) : segmentNames ((a, b) :: rest) = segmentNames rest :=
  List.filterMap_cons_none h

theorem segmentNames_name {a name : String} (h : wildcardName a = some name) (b : String)
    (rest : List (String × String)) :
    segmentNames ((a, b) :: rest) = name :: segmentNames rest :=
  List.filterMap_cons_some h

/-- Parameters that bind each name of the pattern to the segment in its place. -/
structure LoopResult (segments : List (String × String)) (params result : List (String × Json)) :
    Prop where
  literal : ∀ a b, (a, b) ∈ segments → wildcardName a = none → a = b
  bound : ∀ a b, (a, b) ∈ segments → ∀ name, wildcardName a = some name →
    result.lookup name = some (.string b)
  kept : ∀ name, name ∉ segmentNames segments → result.lookup name = params.lookup name
  ordered : KeyOrdered params → KeyOrdered result

theorem LoopResult.cons_literal {a : String} {rest : List (String × String)}
    {params result : List (String × Json)} (h : LoopResult rest params result)
    (hn : wildcardName a = none) : LoopResult ((a, a) :: rest) params result := by
  refine ⟨?_, ?_, ?_, h.ordered⟩
  · intro a' b' hm hnone
    rcases List.mem_cons.mp hm with he | hm
    · rw [Prod.mk.injEq] at he
      rw [he.1, he.2]
    · exact h.literal a' b' hm hnone
  · intro a' b' hm name hsome
    rcases List.mem_cons.mp hm with he | hm
    · rw [Prod.mk.injEq] at he
      rw [he.1, hn] at hsome
      cases hsome
    · exact h.bound a' b' hm name hsome
  · intro name hm
    rw [segmentNames_literal hn] at hm
    exact h.kept name hm

/-- The names that follow are different, so a name keeps its value. -/
theorem LoopResult.cons_name {a b name : String} {rest : List (String × String)}
    {params result : List (String × Json)}
    (h : LoopResult rest (insertKey name (.string b) params) result)
    (hn : wildcardName a = some name) (hd : name ∉ segmentNames rest) :
    LoopResult ((a, b) :: rest) params result := by
  refine ⟨?_, ?_, ?_, ?_⟩
  · intro a' b' hm hnone
    rcases List.mem_cons.mp hm with he | hm
    · rw [Prod.mk.injEq] at he
      rw [he.1, hn] at hnone
      cases hnone
    · exact h.literal a' b' hm hnone
  · intro a' b' hm other hsome
    rcases List.mem_cons.mp hm with he | hm
    · rw [Prod.mk.injEq] at he
      rw [he.1, hn, Option.some.injEq] at hsome
      subst hsome
      rw [h.kept name hd, lookup_insertKey, if_pos rfl, he.2]
    · exact h.bound a' b' hm other hsome
  · intro other hm
    rw [segmentNames_name hn, List.mem_cons, not_or] at hm
    rw [h.kept other hm.2, lookup_insertKey, if_neg hm.1]
  · intro ho
    exact h.ordered (ho.insertKey name _)

theorem wildcardLoop_name {a name : String} (h : wildcardName a = some name) (b : String)
    (rest : List (String × String)) (params : List (String × Json)) :
    wildcardLoop ((a, b) :: rest) params =
      wildcardLoop rest (insertKey name (.string b) params) := by
  rw [wildcardLoop, if_pos ((isWildcard_iff a).mpr ⟨name, h⟩), sliceText_name h]
  rfl

theorem wildcardLoop_literal {a : String} (h : wildcardName a = none) (b : String)
    (rest : List (String × String)) (params : List (String × Json)) :
    wildcardLoop ((a, b) :: rest) params =
      if a ≠ b then some none else wildcardLoop rest params := by
  rw [wildcardLoop, if_neg]
  rw [isWildcard_iff, h]
  simp

/-- The loop does not panic. It fails only at a literal that is not the path's segment. -/
theorem wildcardLoop_result {segments : List (String × String)}
    (hd : (segmentNames segments).Nodup) (params : List (String × Json)) :
    (wildcardLoop segments params = some none ∧
      ∃ a b, (a, b) ∈ segments ∧ wildcardName a = none ∧ a ≠ b) ∨
    ∃ result, wildcardLoop segments params = some (some result) ∧
      LoopResult segments params result := by
  induction segments generalizing params with
  | nil =>
    right
    exact ⟨params, rfl, by simp, by simp, fun _ _ => rfl, id⟩
  | cons segment rest ih =>
    obtain ⟨a, b⟩ := segment
    cases hname : wildcardName a with
    | none =>
      rw [segmentNames_literal hname] at hd
      rw [wildcardLoop_literal hname]
      split
      · rename_i hne
        left
        exact ⟨rfl, a, b, by simp, hname, hne⟩
      · rename_i heq
        rw [not_not] at heq
        subst heq
        rcases ih hd params with ⟨hl, a', b', hm, hrest⟩ | ⟨result, hl, hr⟩
        · left
          exact ⟨hl, a', b', List.mem_cons_of_mem _ hm, hrest⟩
        · right
          exact ⟨result, hl, hr.cons_literal hname⟩
    | some name =>
      rw [segmentNames_name hname, List.nodup_cons] at hd
      rw [wildcardLoop_name hname]
      rcases ih hd.2 (insertKey name (.string b) params) with
        ⟨hl, a', b', hm, hrest⟩ | ⟨result, hl, hr⟩
      · left
        exact ⟨hl, a', b', List.mem_cons_of_mem _ hm, hrest⟩
      · right
        exact ⟨result, hl, hr.cons_name hname hd.1⟩

theorem map_eq_iff_zip {f : String → String} {as bs : List String} :
    as.map f = bs ↔ as.length = bs.length ∧ ∀ a b, (a, b) ∈ as.zip bs → f a = b := by
  have hall : List.Forall₂ (fun a b => f a = b) as bs ↔ as.map f = bs := by
    rw [← List.forall₂_map_left_iff (R := Eq), List.forall₂_eq_eq_eq]
  rw [← hall, List.forall₂_iff_zip]

theorem fill_name {segment name : String} (h : wildcardName segment = some name)
    (assignment : String → String) : fill assignment segment = assignment name := by
  rw [fill, h]
  rfl

theorem fill_literal {segment : String} (h : wildcardName segment = none)
    (assignment : String → String) : fill assignment segment = segment := by
  rw [fill, h]
  rfl

theorem mem_wildcardNames {pattern segment name : String} (hm : segment ∈ split '/' pattern)
    (h : wildcardName segment = some name) : name ∈ wildcardNames pattern :=
  List.mem_filterMap.mpr ⟨segment, hm, h⟩

/-- A pattern is turned into a path segment by segment. -/
theorem turns_iff {assignment : String → String} {pattern path : String}
    (hs : ∀ name ∈ wildcardNames pattern, '/' ∉ (assignment name).toList) :
    Turns assignment pattern path ↔
      (split '/' pattern).map (fill assignment) = split '/' path := by
  constructor
  · rintro ⟨-, hfilled⟩
    rw [← hfilled, substitute, split_join]
    · simp [split_ne_nil]
    · intro piece hm
      obtain ⟨segment, hseg, rfl⟩ := List.mem_map.mp hm
      cases hname : wildcardName segment with
      | none =>
        rw [fill_literal hname]
        exact split_pieces '/' pattern segment hseg
      | some name =>
        rw [fill_name hname]
        exact hs name (mem_wildcardNames hseg hname)
  · intro h
    refine ⟨hs, ?_⟩
    rw [substitute, h, join_split]

theorem segmentNames_zip {pattern path : List String} (h : pattern.length = path.length) :
    segmentNames (pattern.zip path) = pattern.filterMap wildcardName := by
  have hfst : (pattern.zip path).map Prod.fst = pattern := List.map_fst_zip (Nat.le_of_eq h)
  conv_rhs => rw [← hfst]
  rw [List.filterMap_map]
  rfl

/-- The parameters, as an assignment, fill each segment of the pattern. -/
theorem LoopResult.fill {segments : List (String × String)} {result : List (String × Json)}
    (h : LoopResult segments [] result) {a b : String} (hm : (a, b) ∈ segments) :
    fill (assigned (.object result)) a = b := by
  cases hname : wildcardName a with
  | none =>
    rw [fill_literal hname]
    exact h.literal a b hm hname
  | some name =>
    rw [fill_name hname, assigned, Json.get, h.bound a b hm name hname]
    rfl

/-- Every other assignment that fills the segments says the same of each name. -/
theorem LoopResult.areParams {segments : List (String × String)} {result : List (String × Json)}
    (h : LoopResult segments [] result) {assignment : String → String}
    (hf : ∀ a b, (a, b) ∈ segments → Functions.fill assignment a = b) :
    AreParams (.object result) (segmentNames segments) assignment := by
  refine ⟨result, rfl, h.ordered .nil, fun name => ?_⟩
  split
  · rename_i hm
    obtain ⟨⟨a, b⟩, hseg, hname⟩ := List.mem_filterMap.mp hm
    rw [h.bound a b hseg name hname, ← hf a b hseg, fill_name hname]
  · rename_i hm
    rw [h.kept name hm]
    rfl

/-- What the code returns for a pattern and a path, and when. -/
theorem wildcardParams_cases {pattern : String} (hd : (wildcardNames pattern).Nodup)
    (path : String) :
    (wildcardParams pattern path = some none ∧ ∀ assignment, ¬ Turns assignment pattern path) ∨
    ∃ params, wildcardParams pattern path = some (some params) ∧
      Turns (assigned params) pattern path ∧
      ∀ assignment, Turns assignment pattern path →
        AreParams params (wildcardNames pattern) assignment := by
  have hzip : ∀ {assignment : String → String}, Turns assignment pattern path →
      (split '/' pattern).length = (split '/' path).length ∧
        ∀ a b, (a, b) ∈ (split '/' pattern).zip (split '/' path) → fill assignment a = b := by
    intro assignment ht
    exact map_eq_iff_zip.mp ((turns_iff ht.slashFree).mp ht)
  rw [wildcardParams]
  by_cases hlen : (split '/' pattern).length = (split '/' path).length
  · rw [if_neg (not_not_intro hlen)]
    have hnames : segmentNames ((split '/' pattern).zip (split '/' path)) = wildcardNames pattern :=
      segmentNames_zip hlen
    rw [← hnames] at hd
    rcases wildcardLoop_result hd [] with ⟨hl, a, b, hm, hnone, hne⟩ | ⟨result, hl, hr⟩
    · left
      refine ⟨by rw [hl]; rfl, fun assignment ht => hne ?_⟩
      rw [← (hzip ht).2 a b hm, fill_literal hnone]
    · right
      refine ⟨.object result, by rw [hl]; rfl, ?_, ?_⟩
      · rw [turns_iff]
        · exact map_eq_iff_zip.mpr ⟨hlen, fun a b hm => hr.fill hm⟩
        · intro name hm
          rw [← hnames] at hm
          obtain ⟨⟨a, b⟩, hseg, hname⟩ := List.mem_filterMap.mp hm
          rw [← fill_name hname (assigned (.object result)), hr.fill hseg]
          exact split_pieces '/' path b (List.of_mem_zip hseg).2
      · intro assignment ht
        rw [← hnames]
        exact hr.areParams (hzip ht).2
  · rw [if_pos hlen]
    left
    exact ⟨rfl, fun assignment ht => hlen (hzip ht).1⟩

/-- Parameters are returned when some assignment turns the pattern into the path, and they are
that assignment. -/
theorem wildcard_params_inverse {pattern : String} (hd : (wildcardNames pattern).Nodup)
    (path : String) :
    ((∃ params, wildcardParams pattern path = some (some params)) ↔
      ∃ assignment, Turns assignment pattern path) ∧
    (∀ params, wildcardParams pattern path = some (some params) →
      substitute (assigned params) pattern = path ∧
      ∀ assignment, Turns assignment pattern path →
        AreParams params (wildcardNames pattern) assignment) ∧
    wildcardParams pattern path ≠ none := by
  rcases wildcardParams_cases hd path with ⟨hnone, hno⟩ | ⟨params, hsome, ht, hall⟩
  · rw [hnone]
    refine ⟨⟨?_, ?_⟩, ?_, ?_⟩
    · rintro ⟨params, h⟩
      cases h
    · rintro ⟨assignment, ht⟩
      exact absurd ht (hno assignment)
    · intro params h
      cases h
    · simp
  · rw [hsome]
    refine ⟨⟨?_, ?_⟩, ?_, ?_⟩
    · intro _
      exact ⟨assigned params, ht⟩
    · intro _
      exact ⟨params, rfl⟩
    · intro params' h
      rw [Option.some.injEq, Option.some.injEq] at h
      subst h
      exact ⟨ht.filled, hall⟩
    · simp

theorem wildcard_params_inverse_sample :
    ((∃ params, wildcardParams "companies/\x7bcompany\x7d/contacts/\x7bid\x7d"
        "companies/acme/contacts/one" = some (some params)) ↔
      ∃ assignment, Turns assignment "companies/\x7bcompany\x7d/contacts/\x7bid\x7d"
        "companies/acme/contacts/one") ∧
    (∀ params, wildcardParams "companies/\x7bcompany\x7d/contacts/\x7bid\x7d"
        "companies/acme/contacts/one" = some (some params) →
      substitute (assigned params) "companies/\x7bcompany\x7d/contacts/\x7bid\x7d" =
        "companies/acme/contacts/one" ∧
      ∀ assignment, Turns assignment "companies/\x7bcompany\x7d/contacts/\x7bid\x7d"
          "companies/acme/contacts/one" →
        AreParams params (wildcardNames "companies/\x7bcompany\x7d/contacts/\x7bid\x7d")
          assignment) ∧
    wildcardParams "companies/\x7bcompany\x7d/contacts/\x7bid\x7d"
      "companies/acme/contacts/one" ≠ none :=
  wildcard_params_inverse (by decide) "companies/acme/contacts/one"

end FirebaseEmu.Functions
