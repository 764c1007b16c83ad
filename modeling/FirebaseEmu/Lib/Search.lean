import Mathlib.Data.List.Basic

namespace FirebaseEmu.Lib

variable {α : Type}

/-- `windows`: the contiguous parts of that length, which is not zero. -/
def windows (size : Nat) : List α → List (List α)
  | [] => []
  | x :: xs => if xs.length + 1 < size then [] else (x :: xs).take size :: windows size xs

/-- The needle occurs at that place and at no earlier one. -/
structure FoundAt (haystack needle : List α) (i : Nat) : Prop where
  here : needle <+: haystack.drop i
  first : ∀ j < i, ¬ needle <+: haystack.drop j

theorem FoundAt.zero {haystack needle : List α} (h : needle <+: haystack) :
    FoundAt haystack needle 0 :=
  ⟨h, fun _ hj => absurd hj (Nat.not_lt_zero _)⟩

theorem FoundAt.succ {needle xs : List α} {x : α} {i : Nat} (hx : ¬ needle <+: x :: xs)
    (h : FoundAt xs needle i) : FoundAt (x :: xs) needle (i + 1) := by
  refine ⟨h.here, ?_⟩
  intro j hj
  cases j with
  | zero => exact hx
  | succ j => exact h.first j (Nat.lt_of_succ_lt_succ hj)

theorem FoundAt.unique {haystack needle : List α} {i j : Nat} (hi : FoundAt haystack needle i)
    (hj : FoundAt haystack needle j) : i = j := by
  rcases Nat.lt_trichotomy i j with h | h | h
  · exact absurd hi.here (hj.first i h)
  · exact h
  · exact absurd hj.here (hi.first j h)

/-- What is found lies within the haystack. -/
theorem FoundAt.le_length {haystack needle : List α} {i : Nat} (h : FoundAt haystack needle i)
    (hn : needle ≠ []) : i + needle.length ≤ haystack.length := by
  have hlen := h.here.length_le
  have hpos : 0 < needle.length := List.length_pos_iff.mpr hn
  rw [List.length_drop] at hlen
  omega

/-- An early part of the needle ends the text, and the rest of it starts the needle again. -/
def Overlaps (text needle : List α) : Prop :=
  ∃ start rest, start ≠ [] ∧ rest ≠ [] ∧ needle = start ++ rest ∧ start <:+ text ∧
    rest <+: needle

/-- Behind a text that neither holds the needle nor overlaps it, the needle is found where the
text ends. -/
theorem foundAt_append {text needle : List α} (after : List α) (hn : ¬ needle <:+: text)
    (ho : ¬ Overlaps text needle) : FoundAt (text ++ needle ++ after) needle text.length := by
  refine ⟨?_, ?_⟩
  · rw [List.append_assoc, List.drop_left]
    exact List.prefix_append _ _
  · intro j hj hp
    rw [List.append_assoc, List.drop_append_of_le_length (Nat.le_of_lt hj)] at hp
    have hne : text.drop j ≠ [] := by simpa using hj
    have hsuffix : text.drop j <:+ text := List.drop_suffix j text
    obtain ⟨more, hmore⟩ := hp
    rcases List.append_eq_append_iff.mp hmore with ⟨rest, htext, -⟩ | ⟨rest, hneedle, hrest⟩
    · exact hn (List.IsInfix.trans ⟨[], rest, by simpa using htext.symm⟩ hsuffix.isInfix)
    · by_cases hr : rest = []
      · rw [hr, List.append_nil] at hneedle
        exact hn (hneedle ▸ hsuffix.isInfix)
      · refine ho ⟨text.drop j, rest, hne, hr, hneedle, hsuffix, ?_⟩
        have hshort : rest.length ≤ needle.length := by
          rw [hneedle, List.length_append]
          exact Nat.le_add_left _ _
        exact List.prefix_of_prefix_length_le ⟨more, hrest.symm⟩ (List.prefix_append _ _) hshort

/-- A needle whose first element does not come again overlaps nothing. -/
theorem not_overlaps_of_head {x : α} {xs : List α} (h : x ∉ xs) (text : List α) :
    ¬ Overlaps text (x :: xs) := by
  rintro ⟨start, rest, hstart, hrest, hneedle, -, hp⟩
  cases start with
  | nil => exact hstart rfl
  | cons y start =>
    rw [List.cons_append, List.cons.injEq] at hneedle
    cases rest with
    | nil => exact hrest rfl
    | cons z rest =>
      obtain ⟨rfl, -⟩ := List.cons_prefix_cons.mp hp
      refine h ?_
      rw [hneedle.2]
      exact List.mem_append_right _ List.mem_cons_self

variable [DecidableEq α]

/-- The position of the first occurrence of a needle in a haystack. -/
def find (haystack needle : List α) : Option Nat :=
  if needle.isEmpty then some 0
  else (windows needle.length haystack).findIdx? (· == needle)

theorem find_nil {needle : List α} (h : needle ≠ []) : find [] needle = none := by
  simp [find, h, windows]

theorem find_cons {needle : List α} (h : needle ≠ []) (x : α) (xs : List α) :
    find (x :: xs) needle =
      if needle <+: x :: xs then some 0 else (find xs needle).map (· + 1) := by
  have hempty : needle.isEmpty = false := by simp [h]
  simp only [find, hempty, Bool.false_eq_true, if_false, windows]
  by_cases hshort : xs.length + 1 < needle.length
  · have hnone : ∀ ys : List α, ys.length < needle.length → windows needle.length ys = [] := by
      intro ys hys
      cases ys with
      | nil => rfl
      | cons y ys => exact if_pos hys
    rw [if_pos hshort, hnone xs (by omega), if_neg]
    · rfl
    · intro hp
      have := hp.length_le
      rw [List.length_cons] at this
      omega
  · rw [if_neg hshort, List.findIdx?_cons]
    simp only [beq_iff_eq, List.prefix_iff_eq_take, eq_comm (a := needle)]

/-- The search returns the first occurrence, and there is one. -/
theorem find_eq_some {haystack needle : List α} {i : Nat} (h : find haystack needle = some i) :
    FoundAt haystack needle i := by
  by_cases hn : needle = []
  · subst hn
    cases h
    exact .zero List.nil_prefix
  · induction haystack generalizing i with
    | nil =>
      rw [find_nil hn] at h
      cases h
    | cons x xs ih =>
      rw [find_cons hn] at h
      split at h
      · rename_i hp
        cases h
        exact .zero hp
      · rename_i hp
        obtain ⟨k, hk, rfl⟩ := Option.map_eq_some_iff.mp h
        exact .succ hp (ih hk)

/-- A needle that occurs is found. -/
theorem find_ne_none {haystack needle : List α} {i : Nat} (h : needle <+: haystack.drop i) :
    find haystack needle ≠ none := by
  by_cases hn : needle = []
  · simp [find, hn]
  · induction haystack generalizing i with
    | nil =>
      rw [List.drop_nil, List.prefix_nil] at h
      exact absurd h hn
    | cons x xs ih =>
      rw [find_cons hn]
      split
      · simp
      · rename_i hp
        cases i with
        | zero => exact absurd h hp
        | succ i => simpa using ih h

/-- What stands between the first two places of a separator, or behind its only one. -/
def second (sep text : List α) : Option (List α) :=
  (find text sep).map fun i =>
    let rest := text.drop (i + sep.length)
    match find rest sep with
    | some j => rest.take j
    | none => rest

theorem FoundAt.find {haystack needle : List α} {i : Nat} (h : FoundAt haystack needle i) :
    find haystack needle = some i := by
  obtain ⟨j, hj⟩ := Option.ne_none_iff_exists'.mp (find_ne_none h.here)
  rw [hj, (find_eq_some hj).unique h]

end FirebaseEmu.Lib
