import FirebaseEmu.Firestore.Fields

namespace FirebaseEmu.Firestore
open Lib

/-- How the console names a field that must be taken literally. -/
def quotedFieldPath (fieldName : String) : String :=
  "\x60" ++ replace '\x60' "\\\x60" (replace '\\' "\\\\" fieldName) ++ "\x60"

/-- What the two replacements make of one character. -/
def escapeChar (c : Char) : List Char :=
  if c = '\\' then ['\\', '\\'] else if c = '\x60' then ['\\', '\x60'] else [c]

theorem quotedFieldPath_toList (fieldName : String) : (quotedFieldPath fieldName).toList =
    '\x60' :: (fieldName.toList.flatMap escapeChar ++ ['\x60']) := by
  have hc : ∀ c : Char, ((if c = '\\' then "\\\\".toList else [c]).flatMap fun d =>
      if d = '\x60' then "\\\x60".toList else [d]) = escapeChar c := by
    intro c
    unfold escapeChar
    by_cases h : c = '\\'
    · simp [h]
    · by_cases h' : c = '\x60'
      · simp [h']
      · simp [h, h']
  simp only [quotedFieldPath, replace, String.toList_append, String.toList_ofList,
    List.flatMap_assoc, hc]
  simp

/-- Inside quotes an escaped character stands for itself. -/
theorem fieldPathLoop_escaped (cs rest : List Char) (parts : List String) (part : List Char) :
    fieldPathLoop (cs.flatMap escapeChar ++ rest) parts part true false =
      fieldPathLoop rest parts (part ++ cs) true false := by
  induction cs generalizing part with
  | nil => simp
  | cons c cs ih =>
    rw [List.flatMap_cons, List.append_assoc]
    by_cases h : c = '\\'
    · simp [h, escapeChar, fieldPathLoop_cons, ih]
    · by_cases h' : c = '\x60'
      · simp [h', escapeChar, fieldPathLoop_cons, ih]
      · simp [h, h', escapeChar, fieldPathLoop_cons, ih]

/-- Between separators a quoted name is read as the name it quotes. -/
theorem fieldPathLoop_quoted (fieldName : String) (rest : List Char) (parts : List String)
    (part : List Char) :
    fieldPathLoop ((quotedFieldPath fieldName).toList ++ rest) parts part false false =
      fieldPathLoop rest parts (part ++ fieldName.toList) false false := by
  rw [quotedFieldPath_toList, List.cons_append, List.append_assoc]
  simp [fieldPathLoop_cons, fieldPathLoop_escaped]

/-- The quoted names one after the other, with a dot between them. -/
theorem fieldPathLoop_joined {segments : List String} (hne : segments ≠ [])
    (hs : ∀ segment ∈ segments, segment ≠ "") (parts : List String) :
    fieldPathLoop (join '.' (segments.map quotedFieldPath)).toList parts [] false false =
      .ok (parts ++ segments) := by
  induction segments generalizing parts with
  | nil => exact absurd rfl hne
  | cons segment segments ih =>
    have hseg : segment.toList ≠ [] := by
      simpa using hs segment List.mem_cons_self
    by_cases hnil : segments = []
    · have hj : join '.' ([segment].map quotedFieldPath) = quotedFieldPath segment := by
        simp [join]
      have hq := fieldPathLoop_quoted segment [] parts []
      rw [List.append_nil] at hq
      rw [hnil, hj, hq]
      simp [fieldPathLoop_nil, hseg]
    · have hmap : segments.map quotedFieldPath ≠ [] := by simpa using hnil
      rw [List.map_cons, join_cons '.' _ hmap, String.toList_append, String.toList_append,
        List.append_assoc, fieldPathLoop_quoted]
      have ih := ih hnil (fun s hm => hs s (List.mem_cons_of_mem _ hm)) (parts ++ [segment])
      simp [fieldPathLoop_cons, hseg, ih]

theorem segments_append {parts : List String} {part : List Char}
    (hp : ∀ segment ∈ parts, segment ≠ "") (hne : ¬ part.isEmpty = true) :
    ∀ segment ∈ parts ++ [String.ofList part], segment ≠ "" := by
  intro segment hm
  rcases List.mem_append.mp hm with hm | hm
  · exact hp segment hm
  · rw [List.mem_singleton.mp hm]
    simpa using hne

/-- What the loop accepts has at least one segment, and none of them is empty. -/
theorem fieldPathLoop_ok {chs : List Char} {parts : List String} {part : List Char}
    {quoted escape : Bool} {segments : List String} (hp : ∀ segment ∈ parts, segment ≠ "")
    (h : fieldPathLoop chs parts part quoted escape = .ok segments) :
    segments ≠ [] ∧ ∀ segment ∈ segments, segment ≠ "" := by
  induction chs generalizing parts part quoted escape with
  | nil =>
    rw [fieldPathLoop_nil] at h
    split at h
    · cases h
    · rename_i hc
      simp only [Bool.or_eq_true, not_or] at hc
      cases h
      exact ⟨by simp, segments_append hp hc.2⟩
  | cons ch chs ih =>
    rw [fieldPathLoop_cons] at h
    split at h
    · exact ih hp h
    · split at h
      · exact ih hp h
      · split at h
        · exact ih hp h
        · split at h
          · split at h
            · cases h
            · rename_i hne
              exact ih (segments_append hp hne) h
          · exact ih hp h

theorem fieldPath_ok {path : String} {segments : List String} (h : fieldPath path = .ok segments) :
    segments ≠ [] ∧ ∀ segment ∈ segments, segment ≠ "" :=
  fieldPathLoop_ok (by simp) h

/-- A quoted name is read as a path of that name alone. -/
theorem fieldPath_quoted {fieldName : String} (h : fieldName ≠ "") :
    fieldPath (quotedFieldPath fieldName) = .ok [fieldName] := by
  have hread := fieldPathLoop_joined (List.cons_ne_nil fieldName [])
    (fun _ hs => List.mem_singleton.mp hs ▸ h) []
  have hone : join '.' ([fieldName].map quotedFieldPath) = quotedFieldPath fieldName := by
    simp [join]
  rw [hone] at hread
  exact hread

/-- A path written with quoted names is read back as the names, and no path is read as
anything but named segments. -/
theorem quoted_field_paths :
    (∀ segments : List String, segments ≠ [] → (∀ segment ∈ segments, segment ≠ "") →
      fieldPath (join '.' (segments.map quotedFieldPath)) = .ok segments) ∧
    ∀ (path : String) (segments : List String), fieldPath path = .ok segments →
      segments ≠ [] ∧ ∀ segment ∈ segments, segment ≠ "" := by
  constructor
  · intro segments hne hs
    exact fieldPathLoop_joined hne hs []
  · intro path segments h
    exact fieldPath_ok h

example : (fieldPath (join '.' (["a.b", "\x60\\"].map quotedFieldPath))).toOption =
    some ["a.b", "\x60\\"] := by decide

end FirebaseEmu.Firestore
