import FirebaseEmu.Lib.Entries
import FirebaseEmu.Lib.Results
import FirebaseEmu.Lib.Search
import FirebaseEmu.Lib.Text
import Mathlib

namespace FirebaseEmu.Config
open Lib

/-- The variables of an environment by name, in order. -/
abbrev Variables := List (String × String)

def validKey (key : String) : Bool :=
  !key.isEmpty && key.toList.all (fun c => c.isAlphanum || c == '_') &&
    !(key.toList.head?).any Char.isDigit

/-- A value between two quotes of one kind. -/
def quotedBy (quote : Char) (value : String) : Bool :=
  value.toList.head? == some quote && value.toList.getLast? == some quote

/-- The value behind `=`, without its quotes or a comment. -/
def dotenvValue (value : String) : String :=
  if 2 ≤ value.utf8ByteSize && (quotedBy '"' value || quotedBy '\'' value) then
    String.ofList value.toList.tail.dropLast
  else
    let kept := match find value.toList [' ', '#'] with
      | some i => value.toList.take i
      | none => value.toList
    String.ofList (kept.rdropWhile isWhitespace)

/-- The assignment of a line; there is none on an empty line or in a comment. -/
def parseLine (path : String) (offset : Nat) (original : String) :
    Except String (Option (String × String)) :=
  let line := trim original
  if line.isEmpty || startsWith line "#" then .ok none
  else
    let line := match stripPrefix line "export " with
      | some rest => String.ofList (rest.toList.dropWhile isWhitespace)
      | none => line
    match splitOnce '=' line with
    | none => .error s!"malformed {path} line {offset + 1}"
    | some (key, rawValue) =>
      let key := trim key
      if validKey key then .ok (some (key, dotenvValue (trim rawValue)))
      else .error s!"invalid dotenv key in {path} line {offset + 1}"

def parseLines (path : String) : Nat → List String → Variables → Except String Variables
  | _, [], result => .ok result
  | offset, line :: rest, result => do
    match ← parseLine path offset line with
    | none => parseLines path (offset + 1) rest result
    | some (key, value) => parseLines path (offset + 1) rest (insertKey key value result)

def parseDotenv (raw path : String) : Except String Variables := parseLines path 0 (lines raw) []

/-- A line that sets a variable to any text without a line break. -/
def assignment (entry : String × String) : String := entry.1 ++ "=\"" ++ entry.2 ++ "\""

def renderDotenv (values : Variables) : String :=
  String.ofList (values.flatMap fun entry => (assignment entry).toList ++ ['\n'])

/-- What a dotenv file can set. -/
structure Assignable (values : Variables) : Prop where
  ordered : KeyOrdered values
  keys : ∀ entry ∈ values, validKey entry.1 = true
  lines : ∀ entry ∈ values, '\n' ∉ entry.2.toList

theorem Assignable.insertKey {values : Variables} (h : Assignable values) {key value : String}
    (hk : validKey key = true) (hv : '\n' ∉ value.toList) :
    Assignable (insertKey key value values) := by
  refine ⟨h.ordered.insertKey key value, fun entry hm => ?_, fun entry hm => ?_⟩
  · rcases mem_insertKey hm with rfl | hm
    · exact hk
    · exact h.keys entry hm
  · rcases mem_insertKey hm with rfl | hm
    · exact hv
    · exact h.lines entry hm

theorem trimMatches_sublist (p : Char → Bool) (s : String) :
    (trimMatches p s).toList.Sublist s.toList := by
  unfold trimMatches
  rw [String.toList_ofList]
  exact ((List.rdropWhile_prefix p _).sublist).trans (List.dropWhile_sublist p)

theorem dotenvValue_sublist (value : String) :
    (dotenvValue value).toList.Sublist value.toList := by
  unfold dotenvValue
  split
  · rw [String.toList_ofList]
    exact (List.dropLast_sublist _).trans (List.tail_sublist _)
  · dsimp only
    rw [String.toList_ofList]
    refine ((List.rdropWhile_prefix isWhitespace _).sublist).trans ?_
    split
    · exact List.take_sublist _ _
    · exact List.Sublist.refl _

/-- What a line sets is a part of the line. -/
theorem parseLine_some {path original key value : String} {offset : Nat}
    (h : parseLine path offset original = .ok (some (key, value))) :
    validKey key = true ∧ value.toList.Sublist original.toList := by
  unfold parseLine at h
  dsimp only at h
  split at h
  · cases h
  split at h
  · cases h
  · rename_i before after hsplit
    split at h
    · rename_i hvalid
      obtain ⟨rfl, rfl⟩ := Prod.mk.inj (Option.some.inj (Except.ok.inj h))
      refine ⟨hvalid, ?_⟩
      obtain ⟨hline, -⟩ := splitOnce_eq_some.mp hsplit
      have hafter : after.toList.Sublist (trim original).toList := by
        have hbehind : ∀ line : String, line = before ++ String.singleton '=' ++ after →
            after.toList.Sublist line.toList := by
          rintro line rfl
          rw [String.toList_append]
          exact List.sublist_append_right _ _
        cases hexport : stripPrefix (trim original) "export " with
        | none =>
          rw [hexport] at hline
          exact hbehind _ hline
        | some rest =>
          rw [hexport] at hline
          have hrest := stripPrefix_eq_some.mp hexport
          refine (hbehind _ hline).trans ?_
          rw [String.toList_ofList, hrest, String.toList_append]
          exact (List.dropWhile_sublist _).trans (List.sublist_append_right _ _)
      exact ((dotenvValue_sublist _).trans (trimMatches_sublist _ _)).trans
        (hafter.trans (trimMatches_sublist _ _))
    · cases h

/-- The lines of a text have no line feed in them. -/
theorem lines_unbroken (s : String) : ∀ line ∈ lines s, '\n' ∉ line.toList := by
  have hpiece := split_pieces '\n' s
  intro line hm
  unfold lines at hm
  dsimp only at hm
  rcases List.mem_append.mp hm with hm | hm
  · obtain ⟨piece, hp, rfl⟩ := List.mem_map.mp hm
    have hfree := hpiece piece (List.dropLast_subset _ hp)
    cases hcr : stripSuffix piece "\r" with
    | none => exact hfree
    | some start =>
      rw [stripSuffix_eq_some.mp hcr] at hfree
      intro hline
      exact hfree (by rw [String.toList_append]; exact List.mem_append_left _ hline)
  · obtain ⟨hlast, -⟩ := Option.filter_eq_some_iff.mp (Option.mem_toList.mp hm)
    exact hpiece line (List.mem_of_getLast? hlast)

theorem parseLines_assignable {path : String} {offset : Nat} {rest : List String}
    {result values : Variables} (hfree : ∀ line ∈ rest, '\n' ∉ line.toList)
    (hr : Assignable result) (h : parseLines path offset rest result = .ok values) :
    Assignable values := by
  induction rest generalizing offset result with
  | nil =>
    cases h
    exact hr
  | cons line rest ih =>
    rw [List.forall_mem_cons] at hfree
    rw [parseLines] at h
    obtain ⟨found, hfound, h⟩ := exceptBind_eq_ok.mp h
    cases found with
    | none => exact ih hfree.2 hr h
    | some entry =>
      obtain ⟨key, value⟩ := entry
      obtain ⟨hkey, hsublist⟩ := parseLine_some hfound
      exact ih hfree.2 (hr.insertKey hkey fun hm => hfree.1 (hsublist.subset hm)) h

theorem parseDotenv_assignable {raw path : String} {values : Variables}
    (h : parseDotenv raw path = .ok values) : Assignable values :=
  parseLines_assignable (lines_unbroken raw)
    ⟨.nil, fun _ hm => (by cases hm), fun _ hm => (by cases hm)⟩ h

/-- Lines that end with a quote, each before a line feed, are the lines of their text. -/
theorem lines_terminated {texts : List String} (hfree : ∀ text ∈ texts, '\n' ∉ text.toList)
    (hcr : ∀ text ∈ texts, stripSuffix text "\r" = none) :
    lines (String.ofList (texts.flatMap fun text => text.toList ++ ['\n'])) = texts := by
  have hsplit : split '\n' (String.ofList (texts.flatMap fun text => text.toList ++ ['\n'])) =
      texts ++ [""] := by
    induction texts with
    | nil => rfl
    | cons text texts ih =>
      rw [List.forall_mem_cons] at hfree hcr
      have hform : String.ofList ((text :: texts).flatMap fun text => text.toList ++ ['\n']) =
          text ++ String.singleton '\n' ++
            String.ofList (texts.flatMap fun text => text.toList ++ ['\n']) := by
        rw [← String.toList_inj]
        simp
      rw [hform, split_append, split_of_not_mem '\n' hfree.1, ih hfree.2 hcr.2]
      rfl
  have hempty : (some "").filter (fun piece : String => !piece.isEmpty) = none := rfl
  unfold lines
  dsimp only
  rw [hsplit, List.dropLast_concat, List.getLast?_concat, hempty, Option.toList_none,
    List.append_nil]
  refine (List.map_congr_left fun text hm => ?_).trans (List.map_id texts)
  rw [hcr text hm]
  rfl

theorem validKey_chars {key : String} (h : validKey key = true) :
    key ≠ "" ∧ (∀ c ∈ key.toList, c.isAlphanum = true ∨ c = '_') := by
  unfold validKey at h
  simp only [Bool.and_eq_true, Bool.not_eq_true', List.all_eq_true, Bool.or_eq_true,
    beq_iff_eq] at h
  obtain ⟨⟨hne, hall⟩, -⟩ := h
  refine ⟨?_, hall⟩
  rintro rfl
  cases hne

/-- The characters of keys are none of those that mean something in a line. -/
theorem validKey_char {key : String} (h : validKey key = true) {c : Char} (hc : c ∈ key.toList) :
    c ≠ '=' ∧ c ≠ ' ' ∧ c ≠ '#' ∧ c ≠ '\n' ∧ isWhitespace c = false := by
  have hkind := (validKey_chars h).2 c hc
  have hcode : (48 ≤ c.toNat ∧ c.toNat ≤ 57) ∨ (65 ≤ c.toNat ∧ c.toNat ≤ 90) ∨
      (97 ≤ c.toNat ∧ c.toNat ≤ 122) ∨ c.toNat = 95 := by
    rcases hkind with halnum | rfl
    · have hbounds : 'A'.val.toNat = 65 ∧ 'Z'.val.toNat = 90 ∧ 'a'.val.toNat = 97 ∧
          'z'.val.toNat = 122 ∧ '0'.val.toNat = 48 ∧ '9'.val.toNat = 57 := by decide
      simp only [Char.isAlphanum, Char.isAlpha, Char.isUpper, Char.isLower, Char.isDigit,
        Bool.or_eq_true, decide_eq_true_eq, Bool.and_eq_true, ge_iff_le, UInt32.le_iff_toNat_le]
        at halnum
      simp only [Char.toNat]
      omega
    · exact .inr (.inr (.inr rfl))
  refine ⟨?_, ?_, ?_, ?_, ?_⟩
  · rintro rfl
    revert hcode
    decide
  · rintro rfl
    revert hcode
    decide
  · rintro rfl
    revert hcode
    decide
  · rintro rfl
    revert hcode
    decide
  · unfold isWhitespace
    simp only [Bool.or_eq_false_iff, Bool.and_eq_false_iff, decide_eq_false_iff_not, beq_eq_false_iff_ne]
    omega

/-- What stands between the quotes of an assignment is the value. -/
theorem dotenvValue_quoted (value : String) : dotenvValue ("\"" ++ value ++ "\"") = value := by
  have hlist : ("\"" ++ value ++ "\"").toList = '"' :: (value.toList ++ ['"']) := by
    rw [String.toList_append, String.toList_append]
    rfl
  have hquoted : quotedBy '"' ("\"" ++ value ++ "\"") = true := by
    unfold quotedBy
    rw [hlist, ← List.cons_append, List.getLast?_concat]
    rfl
  have hsize : 2 ≤ ("\"" ++ value ++ "\"").utf8ByteSize := by
    have hone : "\"".utf8ByteSize = 1 := by decide
    rw [String.utf8ByteSize_append, String.utf8ByteSize_append, hone]
    omega
  unfold dotenvValue
  rw [hquoted, decide_eq_true hsize, Bool.true_or, Bool.and_true, if_pos rfl, hlist, List.tail_cons,
    List.dropLast_concat, String.ofList_toList]

theorem trim_key {key : String} (h : validKey key = true) : trim key = key :=
  trimMatches_of_all_not fun _ hc => (validKey_char h hc).2.2.2.2

theorem parseLine_assignment (path : String) (offset : Nat) {entry : String × String}
    (h : validKey entry.1 = true) :
    parseLine path offset (assignment entry) = .ok (some entry) := by
  obtain ⟨key, value⟩ := entry
  have hne := (validKey_chars h).1
  have hform : assignment (key, value) =
      key ++ String.singleton '=' ++ ("\"" ++ value ++ "\"") := by
    rw [← String.toList_inj]
    simp [assignment]
  have hquote : trimMatches isWhitespace "\"" = "\"" := by decide
  have hline : trim (assignment (key, value)) = assignment (key, value) := by
    have hbetween := trimMatches_between (trim_key h) hquote hne (by decide) ("=\"" ++ value)
    rw [← String.append_assoc] at hbetween
    exact hbetween
  obtain ⟨c, cs, hcs⟩ := List.exists_cons_of_ne_nil (show key.toList ≠ [] by simpa using hne)
  have hchars : (assignment (key, value)).toList =
      key.toList ++ '=' :: ('"' :: (value.toList ++ ['"'])) := by
    rw [hform]
    simp
  have hfull : (assignment (key, value)).isEmpty = false := by
    rw [Bool.eq_false_iff, ne_eq, String.isEmpty_iff, ← String.toList_inj, hchars]
    simp
  have hcomment : startsWith (assignment (key, value)) "#" = false := by
    have hfirst := (validKey_char h (hcs ▸ List.mem_cons_self)).2.2.1
    unfold startsWith
    rw [hchars, hcs]
    have hhash : "#".toList = ['#'] := rfl
    rw [hhash, List.cons_append, List.isPrefixOf_cons_cons, beq_false_of_ne (Ne.symm hfirst),
      Bool.false_and]
  have hexport : stripPrefix (assignment (key, value)) "export " = none := by
    rw [Option.eq_none_iff_forall_ne_some]
    intro rest hrest
    -- Up to the first space, the line has an equals sign and `export` has none.
    have hspace := congrArg (fun s : String => s.toList.takeWhile (· ≠ ' '))
      (stripPrefix_eq_some.mp hrest)
    have hkept : ∀ c ∈ key.toList, decide (c ≠ ' ') = true :=
      fun c hc => decide_eq_true (validKey_char h hc).2.1
    rw [hchars, List.takeWhile_append_of_pos hkept, List.takeWhile_cons_of_pos (by decide),
      String.toList_append] at hspace
    have hword : ("export ".toList ++ rest.toList).takeWhile (· ≠ ' ') = "export".toList := rfl
    rw [hword] at hspace
    have hmem : '=' ∈ "export".toList := hspace ▸ List.mem_append_right _ List.mem_cons_self
    exact absurd hmem (by decide)
  have hsplit : splitOnce '=' (assignment (key, value)) = some (key, "\"" ++ value ++ "\"") := by
    rw [hform]
    exact splitOnce_append (fun hm => (validKey_char h hm).1 rfl) _
  have hvalue : trim ("\"" ++ value ++ "\"") = "\"" ++ value ++ "\"" :=
    trimMatches_between hquote hquote (by decide) (by decide) value
  unfold parseLine
  rw [hline]
  dsimp only
  rw [hfull, hcomment, hexport]
  rw [Bool.or_self, if_neg Bool.false_ne_true, hsplit]
  dsimp only
  rw [trim_key h, if_pos h, hvalue, dotenvValue_quoted]

/-- A key above all others goes to the end. -/
theorem insertKey_last {entries : Variables} {key value : String}
    (h : ∀ entry ∈ entries, entry.1 < key) :
    insertKey key value entries = entries ++ [(key, value)] := by
  induction entries with
  | nil => rfl
  | cons entry entries ih =>
    obtain ⟨k, y⟩ := entry
    rw [List.forall_mem_cons] at h
    rw [insertKey, if_neg (not_lt_of_gt h.1), if_neg (ne_of_gt h.1), ih h.2]
    rfl

theorem parseLines_assignments (path : String) {values before : Variables} (offset : Nat)
    (hkeys : ∀ entry ∈ values, validKey entry.1 = true) (ho : KeyOrdered (before ++ values)) :
    parseLines path offset (values.map assignment) before = .ok (before ++ values) := by
  induction values generalizing before offset with
  | nil =>
    rw [List.append_nil]
    rfl
  | cons entry values ih =>
    rw [List.forall_mem_cons] at hkeys
    have hgreater : ∀ other ∈ before, other.1 < entry.1 := fun other hm =>
      (List.pairwise_append.mp ho).2.2 other hm entry List.mem_cons_self
    have hnext := ih (offset + 1) hkeys.2
      (show KeyOrdered ((before ++ [entry]) ++ values) by rw [List.append_assoc]; exact ho)
    rw [List.append_assoc, List.singleton_append] at hnext
    rw [List.map_cons, parseLines, parseLine_assignment path offset hkeys.1]
    simp only [bind, Except.bind]
    rw [insertKey_last hgreater]
    exact hnext

/-- Whatever variables can be set by a dotenv file are set by the file that assigns them one by
one in quotes. -/
theorem Assignable.parse_render {values : Variables} (h : Assignable values) (path : String) :
    parseDotenv (renderDotenv values) path = .ok values := by
  have hlines : Lib.lines (renderDotenv values) = values.map assignment := by
    unfold renderDotenv
    rw [← List.flatMap_map assignment fun text : String => text.toList ++ ['\n']]
    refine lines_terminated ?_ ?_
    · rw [List.forall_mem_map]
      intro entry hm hnewline
      rw [assignment] at hnewline
      simp only [String.toList_append, List.mem_append] at hnewline
      rcases hnewline with ((hkey | hequals) | hvalue) | hquote
      · exact (validKey_char (h.keys entry hm) hkey).2.2.2.1 rfl
      · exact absurd hequals (by decide)
      · exact h.lines entry hm hvalue
      · exact absurd hquote (by decide)
    · rw [List.forall_mem_map]
      intro entry hm
      rw [Option.eq_none_iff_forall_ne_some]
      intro start hstart
      have hlast := congrArg (fun s : String => s.toList.getLast?) (stripSuffix_eq_some.mp hstart)
      have hquote : "\"".toList = ['"'] := rfl
      have hreturn : "\x0d".toList = ['\r'] := rfl
      dsimp only [assignment] at hlast
      rw [String.toList_append, hquote, List.getLast?_concat, String.toList_append, hreturn,
        List.getLast?_concat] at hlast
      exact absurd (Option.some.inj hlast) (by decide)
  unfold parseDotenv
  rw [hlines]
  exact parseLines_assignments path 0 h.keys h.ordered

/-- A dotenv file that is read can be written back, each variable in quotes on a line of its own,
and is read as the same. -/
theorem dotenv_round_trip {raw path : String} {values : Variables}
    (h : parseDotenv raw path = .ok values) (path' : String) :
    Assignable values ∧ parseDotenv (renderDotenv values) path' = .ok values :=
  ⟨parseDotenv_assignable h, (parseDotenv_assignable h).parse_render path'⟩

theorem dotenv_round_trip_sample :
    parseDotenv (renderDotenv [("KEY", "it's"), ("VALUE", "a #b")]) ".env.local" =
      .ok [("KEY", "it's"), ("VALUE", "a #b")] :=
  (dotenv_round_trip
    (show parseDotenv "# sample\nexport VALUE='a #b'\nKEY = it's # not this\n" ".env.demo" =
      .ok [("KEY", "it's"), ("VALUE", "a #b")] by decide) ".env.local").2

end FirebaseEmu.Config
