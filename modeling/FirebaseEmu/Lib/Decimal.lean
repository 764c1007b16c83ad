import Mathlib.Algebra.Group.Nat.Defs
import Mathlib.Data.Nat.Basic

namespace FirebaseEmu.Lib

/-- A number in decimal digits, at least one of them. -/
def readDigits (cs : List Char) : Option Nat :=
  if cs.isEmpty || !cs.all Char.isDigit then none else some (Nat.ofDigitChars 10 cs 0)

theorem readDigits_toDigits (n : Nat) : readDigits (Nat.toDigits 10 n) = some n := by
  have hdigits : (Nat.toDigits 10 n).all Char.isDigit = true :=
    List.all_eq_true.mpr fun c hc => Nat.isDigit_of_mem_toDigits (by decide) (by decide) hc
  have hempty : (Nat.toDigits 10 n).isEmpty = false := by simp
  rw [readDigits, hempty, hdigits, Nat.ofDigitChars_ten_toDigits]
  rfl

theorem readDigits_signed (c : Char) (hc : c.isDigit = false) (cs : List Char) :
    readDigits (c :: cs) = none := by
  simp [readDigits, hc]

/-- `str::parse::<u64>`: digits behind an optional plus sign. -/
def parseU64 (s : String) : Option UInt64 :=
  let digits := match s.toList with
    | '+' :: cs => readDigits cs
    | cs => readDigits cs
  digits.bind fun n => if n < 2 ^ 64 then some (UInt64.ofNat n) else none

def usizeMax : Nat := 2 ^ 64 - 1

/-- `str::parse::<usize>`, on 64 bits. -/
def parseUsize (s : String) : Option Nat := (parseU64 s).map UInt64.toNat

/-- `str::parse::<i64>`: digits behind an optional sign. -/
def parseI64 (s : String) : Option Int64 :=
  match s.toList with
  | '-' :: cs => (readDigits cs).bind fun n =>
    if n ≤ 2 ^ 63 then some (Int64.ofInt (-n)) else none
  | '+' :: cs => (readDigits cs).bind fun n =>
    if n < 2 ^ 63 then some (Int64.ofInt n) else none
  | cs => (readDigits cs).bind fun n => if n < 2 ^ 63 then some (Int64.ofInt n) else none

/-- The text of a number is read back as the number. -/
theorem parseU64_toString {n : Nat} (h : n < 2 ^ 64) :
    parseU64 (toString n) = some (UInt64.ofNat n) := by
  have hlist : (toString n).toList = Nat.toDigits 10 n := by
    rw [Nat.toString_eq_ofList_toDigits, String.toList_ofList]
  have hread := readDigits_toDigits n
  unfold parseU64
  rw [hlist]
  split
  · rename_i cs hcs
    rw [hcs, readDigits_signed _ (by decide)] at hread
    cases hread
  · rw [hread, Option.bind_some, if_pos h]

theorem parseUsize_toString {n : Nat} (h : n ≤ usizeMax) : parseUsize (toString n) = some n := by
  have hlt : n < 2 ^ 64 := by
    unfold usizeMax at h
    omega
  rw [parseUsize, parseU64_toString hlt, Option.map_some, UInt64.toNat_ofNat_of_lt' hlt]

/-- Text that starts with a digit is read as digits. -/
theorem parseI64_digits {n : Nat} (h : n < 2 ^ 63) :
    parseI64 (toString n) = some (Int64.ofInt n) := by
  have hlist : (toString n).toList = Nat.toDigits 10 n := by
    rw [Nat.toString_eq_ofList_toDigits, String.toList_ofList]
  have hread := readDigits_toDigits n
  unfold parseI64
  rw [hlist]
  split
  · rename_i cs hcs
    rw [hcs, readDigits_signed _ (by decide)] at hread
    cases hread
  · rename_i cs hcs
    rw [hcs, readDigits_signed _ (by decide)] at hread
    cases hread
  · rw [hread, Option.bind_some, if_pos h]

theorem parseI64_minus {n : Nat} (h : n ≤ 2 ^ 63) :
    parseI64 ("-" ++ toString n) = some (Int64.ofInt (-n)) := by
  have hlist : ("-" ++ toString n).toList = '-' :: Nat.toDigits 10 n := by
    rw [String.toList_append, Nat.toString_eq_ofList_toDigits, String.toList_ofList,
      String.toList_ofList]
    rfl
  have hread : ((readDigits (Nat.toDigits 10 n)).bind fun n =>
      if n ≤ 2 ^ 63 then some (Int64.ofInt (-n)) else none) = some (Int64.ofInt (-n)) := by
    rw [readDigits_toDigits, Option.bind_some, if_pos h]
  unfold parseI64
  rw [hlist]
  exact hread

/-- The text of an integer is read back as the integer. -/
theorem parseI64_toString (i : Int64) : parseI64 (toString i.toInt) = some i := by
  have hlo := i.le_toInt
  have hhi := i.toInt_lt
  rcases Int.eq_nat_or_neg i.toInt with ⟨n, hi | hi⟩
  · rw [hi] at hhi
    have htext : toString (n : Int) = toString n := rfl
    rw [hi, htext, parseI64_digits (by omega), ← hi, Int64.ofInt_toInt]
  · rw [hi] at hlo
    cases n with
    | zero =>
      rw [hi, ← Int64.ofInt_toInt i, hi]
      rfl
    | succ n =>
      have htext : toString (-((n + 1 : Nat) : Int)) = "-" ++ toString (n + 1) := rfl
      rw [hi, htext, parseI64_minus (by omega), ← hi, Int64.ofInt_toInt]

example : parseI64 "-9223372036854775808" = some Int64.minValue := by rfl

/-- `char::to_digit(16)`. -/
def hexDigit (c : Char) : Option Nat :=
  let n := c.toNat
  if 48 ≤ n ∧ n ≤ 57 then some (n - 48)
  else if 97 ≤ n ∧ n ≤ 102 then some (n - 87)
  else if 65 ≤ n ∧ n ≤ 70 then some (n - 55)
  else none

/-- A number in hexadecimal digits, at least one of them. -/
def readHex (cs : List Char) : Option Nat :=
  if cs.isEmpty then none else cs.foldlM (fun n c => (hexDigit c).map (16 * n + ·)) 0

/-- The text without its plus sign. -/
def unsigned : List Char → List Char
  | [] => []
  | c :: cs => if c = '+' then cs else c :: cs

/-- `u8::from_str_radix(s, 16)`: digits behind an optional plus sign. -/
def parseHexU8 (s : String) : Option UInt8 :=
  (readHex (unsigned s.toList)).bind fun n => if n < 256 then some (UInt8.ofNat n) else none

theorem hexDigit_lt {c : Char} {n : Nat} (h : hexDigit c = some n) : n < 16 := by
  simp only [hexDigit] at h
  grind

/-- A hexadecimal digit is an ASCII character that is no sign and no escape. -/
theorem hexDigit_char {c : Char} {n : Nat} (h : hexDigit c = some n) :
    c.toNat < 128 ∧ c ≠ '+' ∧ c ≠ '%' := by
  refine ⟨?_, ?_, ?_⟩
  · simp only [hexDigit] at h
    grind
  · rintro rfl
    exact absurd h (by simp [hexDigit])
  · rintro rfl
    exact absurd h (by simp [hexDigit])

theorem readHex_one (c : Char) : readHex [c] = hexDigit c := by
  cases h : hexDigit c <;> simp [readHex, h]

theorem readHex_two {c d : Char} {n : Nat} :
    readHex [c, d] = some n ↔ ∃ x y, hexDigit c = some x ∧ hexDigit d = some y ∧ 16 * x + y = n := by
  cases hc : hexDigit c <;> cases hd : hexDigit d <;> simp [readHex, hc, hd]

theorem readHex_digits {cs : List Char} {n : Nat} (h : readHex cs = some n) :
    ∀ c ∈ cs, ∃ x, hexDigit c = some x := by
  unfold readHex at h
  split at h
  · cases h
  · generalize 0 = start at h
    induction cs generalizing start with
    | nil => simp
    | cons c cs ih =>
      rw [List.foldlM_cons] at h
      obtain ⟨next, hnext, hrest⟩ := Option.bind_eq_some_iff.mp h
      obtain ⟨x, hx, -⟩ := Option.map_eq_some_iff.mp hnext
      intro d hd
      rcases List.mem_cons.mp hd with rfl | hd
      · exact ⟨x, hx⟩
      · by_cases hempty : cs.isEmpty = true
        · rw [List.isEmpty_iff.mp hempty] at hd
          cases hd
        · exact ih hempty next hrest d hd

/-- What is read as a byte is all ASCII. -/
theorem parseHexU8_ascii {s : String} {byte : UInt8} (h : parseHexU8 s = some byte) :
    ∀ c ∈ s.toList, c.toNat < 128 := by
  obtain ⟨n, hn, -⟩ := Option.bind_eq_some_iff.mp h
  have hdigits := readHex_digits hn
  intro c hc
  have hc' : c = '+' ∨ c ∈ unsigned s.toList := by
    cases hs : s.toList with
    | nil => simp [hs] at hc
    | cons d ds =>
      rw [hs] at hc
      rw [unsigned]
      split
      · rename_i hd
        rcases List.mem_cons.mp hc with rfl | hc
        · exact .inl hd
        · exact .inr hc
      · exact .inr hc
  rcases hc' with rfl | hc'
  · decide
  · obtain ⟨x, hx⟩ := hdigits c hc'
    exact (hexDigit_char hx).1

end FirebaseEmu.Lib
