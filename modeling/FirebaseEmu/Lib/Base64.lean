import Mathlib.Algebra.Group.Nat.Defs
import Mathlib.Data.List.GetD

namespace FirebaseEmu.Lib

/-- A base64 engine: an alphabet of 64 characters, with or without padding. -/
structure Base64 where
  alphabet : List Char
  padded : Bool
  length_eq : alphabet.length = 64
  nodup : alphabet.Nodup
  pad_free : '=' ∉ alphabet

namespace Base64

def standard : Base64 where
  alphabet := "ABCDEFGHIJKLMNOPQRSTUVWXYZabcdefghijklmnopqrstuvwxyz0123456789+/".toList
  padded := true
  length_eq := by decide +kernel
  nodup := by decide +kernel
  pad_free := by decide +kernel

def urlSafeNoPad : Base64 where
  alphabet := "ABCDEFGHIJKLMNOPQRSTUVWXYZabcdefghijklmnopqrstuvwxyz0123456789-_".toList
  padded := false
  length_eq := by decide +kernel
  nodup := by decide +kernel
  pad_free := by decide +kernel

/-- Three bytes are four digits. -/
def digits : List UInt8 → List Nat
  | a :: b :: c :: bytes =>
    a.toNat / 4 :: (a.toNat % 4 * 16 + b.toNat / 16) :: (b.toNat % 16 * 4 + c.toNat / 64) ::
      c.toNat % 64 :: digits bytes
  | [a, b] => [a.toNat / 4, a.toNat % 4 * 16 + b.toNat / 16, b.toNat % 16 * 4]
  | [a] => [a.toNat / 4, a.toNat % 4 * 16]
  | [] => []

/-- The bits that are left over must be zero. -/
def ofDigits : List Nat → Option (List UInt8)
  | w :: x :: y :: z :: ds => (ofDigits ds).map fun bytes =>
    UInt8.ofNat (w * 4 + x / 16) :: UInt8.ofNat (x % 16 * 16 + y / 4) ::
      UInt8.ofNat (y % 4 * 64 + z) :: bytes
  | [w, x, y] => if y % 4 = 0 then
      some [UInt8.ofNat (w * 4 + x / 16), UInt8.ofNat (x % 16 * 16 + y / 4)] else none
  | [w, x] => if x % 16 = 0 then some [UInt8.ofNat (w * 4 + x / 16)] else none
  | [_] => none
  | [] => some []

def padding (engine : Base64) (count : Nat) : List Char :=
  if engine.padded then List.replicate ((4 - count % 4) % 4) '=' else []

def digit (engine : Base64) (n : Nat) : Char := engine.alphabet.getD n '='

def value (engine : Base64) (c : Char) : Option Nat :=
  if c ∈ engine.alphabet then some (engine.alphabet.idxOf c) else none

def encode (engine : Base64) (bytes : List UInt8) : String :=
  let ds := digits bytes
  String.ofList (ds.map engine.digit ++ engine.padding ds.length)

def decode (engine : Base64) (text : String) : Option (List UInt8) :=
  let cs := text.toList.takeWhile (· != '=')
  if text.toList.drop cs.length = engine.padding cs.length then
    (cs.mapM engine.value).bind ofDigits
  else none

theorem digits_lt : ∀ (bytes : List UInt8), ∀ n ∈ digits bytes, n < 64
  | a :: b :: c :: bytes => by
    have ha := a.toNat_lt
    have hb := b.toNat_lt
    have hc := c.toNat_lt
    have ih := digits_lt bytes
    simp only [digits, List.forall_mem_cons]
    refine ⟨by omega, by omega, by omega, by omega, ih⟩
  | [a, b] => by
    have ha := a.toNat_lt
    have hb := b.toNat_lt
    simp only [digits, List.forall_mem_cons, List.not_mem_nil, false_implies, implies_true,
      and_true]
    omega
  | [a] => by
    have ha := a.toNat_lt
    simp only [digits, List.forall_mem_cons, List.not_mem_nil, false_implies, implies_true,
      and_true]
    omega
  | [] => fun _ h => nomatch h

theorem ofDigits_digits : ∀ bytes : List UInt8, ofDigits (digits bytes) = some bytes
  | a :: b :: c :: bytes => by
    have ha := a.toNat_lt
    have hb := b.toNat_lt
    have hc := c.toNat_lt
    have hfirst : a.toNat / 4 * 4 + (a.toNat % 4 * 16 + b.toNat / 16) / 16 = a.toNat := by omega
    have hsecond : (a.toNat % 4 * 16 + b.toNat / 16) % 16 * 16 +
        (b.toNat % 16 * 4 + c.toNat / 64) / 4 = b.toNat := by omega
    have hthird : (b.toNat % 16 * 4 + c.toNat / 64) % 4 * 64 + c.toNat % 64 = c.toNat := by omega
    rw [digits, ofDigits, ofDigits_digits bytes, Option.map_some, hfirst, hsecond, hthird]
    simp only [UInt8.ofNat_toNat]
  | [a, b] => by
    have ha := a.toNat_lt
    have hb := b.toNat_lt
    have hfirst : a.toNat / 4 * 4 + (a.toNat % 4 * 16 + b.toNat / 16) / 16 = a.toNat := by omega
    have hsecond : (a.toNat % 4 * 16 + b.toNat / 16) % 16 * 16 + b.toNat % 16 * 4 / 4 =
        b.toNat := by omega
    rw [digits, ofDigits, if_pos (by omega), hfirst, hsecond]
    simp only [UInt8.ofNat_toNat]
  | [a] => by
    have ha := a.toNat_lt
    have hfirst : a.toNat / 4 * 4 + a.toNat % 4 * 16 / 16 = a.toNat := by omega
    rw [digits, ofDigits, if_pos (by omega), hfirst]
    simp only [UInt8.ofNat_toNat]
  | [] => rfl

variable (engine : Base64)

theorem digit_mem {n : Nat} (h : n < 64) : engine.digit n ∈ engine.alphabet := by
  rw [digit, List.getD_eq_getElem _ _ (engine.length_eq ▸ h)]
  exact List.getElem_mem _

theorem value_digit {n : Nat} (h : n < 64) : engine.value (engine.digit n) = some n := by
  rw [value, if_pos (engine.digit_mem h), digit, List.getD_eq_getElem _ _ (engine.length_eq ▸ h)]
  rw [engine.nodup.idxOf_getElem]

theorem mapM_value {ds : List Nat} (h : ∀ n ∈ ds, n < 64) :
    (ds.map engine.digit).mapM engine.value = some ds := by
  induction ds with
  | nil => rfl
  | cons n ds ih =>
    rw [List.forall_mem_cons] at h
    rw [List.map_cons, List.mapM_cons, engine.value_digit h.1, ih h.2]
    rfl

/-- What is encoded decodes to itself. -/
theorem decode_encode (bytes : List UInt8) : engine.decode (engine.encode bytes) = some bytes := by
  have hlt := digits_lt bytes
  have hplain : ∀ c ∈ (digits bytes).map engine.digit, (c != '=') = true := by
    intro c hc
    obtain ⟨n, hn, rfl⟩ := List.mem_map.mp hc
    rw [bne_iff_ne]
    intro he
    exact engine.pad_free (he ▸ engine.digit_mem (hlt n hn))
  have hpad : (engine.padding (digits bytes).length).takeWhile (· != '=') = [] := by
    unfold padding
    split
    · cases (4 - (digits bytes).length % 4) % 4 <;> rfl
    · rfl
  have htake : ((digits bytes).map engine.digit ++ engine.padding (digits bytes).length).takeWhile
      (· != '=') = (digits bytes).map engine.digit := by
    rw [List.takeWhile_append_of_pos hplain, hpad, List.append_nil]
  unfold decode encode
  simp only [String.toList_ofList, htake, List.length_map]
  rw [if_pos, engine.mapM_value hlt, Option.bind_some, ofDigits_digits]
  rw [← List.length_map engine.digit, List.drop_left]

theorem encode_ne_empty {bytes : List UInt8} (h : bytes ≠ []) : engine.encode bytes ≠ "" := by
  intro he
  have hempty : engine.encode [] = "" := by
    unfold encode padding
    cases engine.padded <;> rfl
  have hdecoded := engine.decode_encode bytes
  rw [he, ← hempty, engine.decode_encode] at hdecoded
  exact h (Option.some.inj hdecoded).symm

end Base64

example : Base64.standard.encode [50, 48] = "MjA=" := by decide +kernel

end FirebaseEmu.Lib
