import FirebaseEmu.Auth.Sessions
import Std.Data.String.ToNat

namespace FirebaseEmu.Auth.Payload
open Lib

/-- A text as numbers: its length and its characters. -/
def writeText (text : String) : List Nat := text.toList.length :: text.toList.map Char.toNat

def readText : List Nat → Option (String × List Nat)
  | n :: rest => some (String.ofList ((rest.take n).map Char.ofNat), rest.drop n)
  | [] => none

theorem readText_writeText (text : String) (rest : List Nat) :
    readText (writeText text ++ rest) = some (text, rest) := by
  have hchars : (text.toList.map Char.toNat).map Char.ofNat = text.toList := by
    simp [List.map_map, Function.comp_def]
  have hlen : text.toList.length = (text.toList.map Char.toNat).length := by simp
  simp only [writeText, readText, List.cons_append]
  rw [hlen, List.take_left, List.drop_left, hchars, String.ofList_toList]

/-- An entry whose value is a text or a natural number. Others are left out. -/
def writeEntry : String × Json → List Nat
  | (key, .string text) => 0 :: (writeText key ++ writeText text)
  | (key, .number (.posInt n)) => 1 :: (writeText key ++ [n.toNat])
  | _ => []

def writeEntries (entries : List (String × Json)) : List Nat := entries.flatMap writeEntry

def readEntries : Nat → List Nat → List (String × Json)
  | fuel + 1, 0 :: numbers =>
    match readText numbers with
    | none => []
    | some (key, numbers) =>
      match readText numbers with
      | none => []
      | some (text, numbers) => (key, .string text) :: readEntries fuel numbers
  | fuel + 1, 1 :: numbers =>
    match readText numbers with
    | some (key, n :: numbers) => (key, seconds n) :: readEntries fuel numbers
    | _ => []
  | _, _ => []

/-- The entries that are written. -/
def kept : String × Json → Bool
  | (_, .string _) => true
  | (_, .number (.posInt _)) => true
  | _ => false

theorem readEntries_writeEntries (entries : List (String × Json)) {fuel : Nat}
    (h : entries.length ≤ fuel) :
    readEntries fuel (writeEntries entries) = entries.filter kept := by
  induction entries generalizing fuel with
  | nil => cases fuel <;> rfl
  | cons entry entries ih =>
    obtain ⟨fuel, rfl⟩ : ∃ n, fuel = n + 1 := ⟨fuel - 1, by simp at h; omega⟩
    have hrest := @ih fuel (by simpa using h)
    have hmore := @ih (fuel + 1) (by simp at h; omega)
    obtain ⟨key, value⟩ := entry
    rw [writeEntries, List.flatMap_cons, ← writeEntries]
    cases value with
    | string text =>
      change readEntries (fuel + 1) (0 :: ((writeText key ++ writeText text) ++ _)) = _
      rw [readEntries, List.append_assoc, readText_writeText]
      dsimp only
      rw [readText_writeText]
      exact congrArg _ hrest
    | number n =>
      cases n with
      | posInt n =>
        change readEntries (fuel + 1) (1 :: ((writeText key ++ [n.toNat]) ++ _)) = _
        rw [readEntries, List.append_assoc, readText_writeText]
        simp only [List.singleton_append, seconds, UInt64.ofNat_toNat]
        exact congrArg _ hrest
      | negInt n h => exact hmore
      | float x h => exact hmore
    | null | bool | array | object => exact hmore

/-- What is read of an object has its texts and natural numbers. -/
theorem lookup_kept {entries : List (String × Json)} {key : String} {value : Json}
    (h : (entries.lookup key).getD .null = value) (he : Exact value) :
    ((entries.filter kept).lookup key).getD .null = value := by
  induction entries with
  | nil => exact h
  | cons entry entries ih =>
    obtain ⟨other, found⟩ := entry
    rw [List.lookup_cons] at h
    cases hk : key == other with
    | true =>
      rw [hk] at h
      obtain rfl : found = value := h
      have hkept : kept (other, found) = true := by
        rcases he with ⟨text, rfl⟩ | ⟨n, rfl⟩
        · rfl
        · rfl
      rw [List.filter_cons_of_pos hkept, List.lookup_cons, hk]
      rfl
    | false =>
      rw [hk] at h
      by_cases hkept : kept (other, found) = true
      · rw [List.filter_cons_of_pos hkept, List.lookup_cons, hk]
        exact ih h
      · rw [List.filter_cons_of_neg hkept]
        exact ih h

/-- Numbers as a text without dots. -/
def writeNumbers (numbers : List Nat) : String := join ',' (numbers.map Nat.repr)

def readNumbers (text : String) : List Nat := (split ',' text).filterMap String.toNat?

theorem repr_digits (n : Nat) : ∀ c ∈ (Nat.repr n).toList, c.isDigit = true := by
  intro c hc
  rw [Nat.toList_repr] at hc
  exact Nat.isDigit_of_mem_toDigits (by decide) (by decide) hc

theorem readNumbers_writeNumbers (n : Nat) (numbers : List Nat) :
    readNumbers (writeNumbers (n :: numbers)) = n :: numbers := by
  have hpieces : ∀ piece ∈ (n :: numbers).map (String.toList ∘ Nat.repr), ',' ∉ piece := by
    intro piece hm hcomma
    obtain ⟨m, -, rfl⟩ := List.mem_map.mp hm
    exact absurd (repr_digits m _ hcomma) (by decide)
  have hsplit : split ',' (writeNumbers (n :: numbers)) = (n :: numbers).map Nat.repr := by
    simp only [split, writeNumbers, join, List.map_map, String.toList_ofList]
    rw [List.splitOn_intercalate ',' hpieces (by simp), List.map_map]
    refine List.map_congr_left fun m _ => ?_
    exact String.ofList_toList
  have hread : ∀ m ∈ n :: numbers, (String.toNat? ∘ Nat.repr) m = some m :=
    fun m _ => Nat.toNat?_repr m
  rw [readNumbers, hsplit, List.filterMap_map, List.filterMap_congr hread, List.filterMap_some]

theorem writeNumbers_noDot (numbers : List Nat) : '.' ∉ (writeNumbers numbers).toList := by
  rw [writeNumbers, join, String.toList_ofList, List.map_map]
  induction numbers with
  | nil => exact List.not_mem_nil
  | cons n numbers ih =>
    have hn : '.' ∉ (Nat.repr n).toList := fun hm => absurd (repr_digits n _ hm) (by decide)
    cases numbers with
    | nil => simpa using hn
    | cons m numbers =>
      rw [List.map_cons, List.intercalate_cons_of_ne_nil (by simp), List.mem_append,
        List.mem_append, not_or, not_or]
      exact ⟨⟨hn, by decide⟩, ih⟩

/-- Texts for the claims of a token, of which only what the service reads is kept. -/
def plainTokenCodec : TokenCodec where
  parse _ := none
  encode
    | .object entries => writeNumbers (entries.length :: writeEntries entries)
    | _ => writeNumbers [0]
  decode text := match readNumbers text with
    | fuel :: numbers => some (.object (readEntries fuel numbers))
    | [] => none
  noDot json := by
    cases json <;> exact writeNumbers_noDot _
  decode_encode json := by
    cases json with
    | object entries =>
      refine ⟨.object (entries.filter kept), ?_, fun key value he hv => lookup_kept hv he⟩
      dsimp only
      rw [readNumbers_writeNumbers]
      exact congrArg (fun entries => some (Json.object entries))
        (readEntries_writeEntries entries (Nat.le_refl _))
    | null | bool | number | string | array =>
      refine ⟨.object [], ?_, fun key value he hv => ?_⟩
      · dsimp only
        rw [readNumbers_writeNumbers]
        rfl
      · obtain rfl : Json.null = value := hv
        rcases he with ⟨text, h⟩ | ⟨n, h⟩ <;> cases h

end FirebaseEmu.Auth.Payload
