import FirebaseEmu.Firestore.Names
import FirebaseEmu.Lib.Decimal
import FirebaseEmu.Lib.Results
import FirebaseEmu.Lib.Utf8

namespace FirebaseEmu.Firestore.Web
open Lib

/-- `u8::from_str_radix` on the two bytes behind a percent sign. -/
def escapeByte (high low : UInt8) : Except Status UInt8 :=
  match (ofUtf8 [high, low]).bind parseHexU8 with
  | some byte => .ok byte
  | none => .error (invalidArgument "invalid form escape")

/-- The loop of `decode_form_component` from some byte on. -/
def unescape : Bytes → Except Status Bytes
  | [] => .ok []
  | b :: rest =>
    if b = 43 then (unescape rest).map (32 :: ·)
    else if b = 37 then
      match rest with
      | high :: low :: rest => (escapeByte high low).bind fun byte =>
        (unescape rest).map (byte :: ·)
      | _ => .error (invalidArgument "invalid form escape")
    else (unescape rest).map (b :: ·)

theorem unescape_plus (rest : Bytes) : unescape (43 :: rest) = (unescape rest).map (32 :: ·) := by
  match rest with
  | [] => rfl
  | [_] => rfl
  | _ :: _ :: _ => rfl

theorem unescape_percent (high low : UInt8) (rest : Bytes) :
    unescape (37 :: high :: low :: rest) = (escapeByte high low).bind fun byte =>
      (unescape rest).map (byte :: ·) := rfl

theorem unescape_other {b : UInt8} (hb : b ≠ 43 ∧ b ≠ 37) (rest : Bytes) :
    unescape (b :: rest) = (unescape rest).map (b :: ·) := by
  match rest with
  | [] => simp [unescape, hb.1, hb.2]
  | [_] => simp [unescape, hb.1, hb.2]
  | _ :: _ :: _ => simp [unescape, hb.1, hb.2]

def decodeFormComponent (s : String) : Except Status String := do
  let out ← unescape (textBytes s)
  match ofUtf8 out with
  | some text => pure text
  | none => .error (invalidArgument "invalid UTF-8 form")

/-- A byte in two hexadecimal digits. -/
def HexPair (h l : Char) (byte : UInt8) : Prop :=
  ∃ x y, hexDigit h = some x ∧ hexDigit l = some y ∧ 16 * x + y = byte.toNat

/-- A byte in one hexadecimal digit behind a plus sign. -/
def SignedPair (h l : Char) (byte : UInt8) : Prop := h = '+' ∧ hexDigit l = some byte.toNat

/-- The bytes are those of the text with a space for every plus sign, and a byte for every
percent sign with the two characters behind it. -/
inductive Unescaped (escape : Char → Char → UInt8 → Prop) : List Char → Bytes → Prop
  | nil : Unescaped escape [] []
  | plus {cs : List Char} {bytes : Bytes} (h : Unescaped escape cs bytes) :
    Unescaped escape ('+' :: cs) (32 :: bytes)
  | escaped {high low : Char} {byte : UInt8} {cs : List Char} {bytes : Bytes}
    (hb : escape high low byte) (h : Unescaped escape cs bytes) :
    Unescaped escape ('%' :: high :: low :: cs) (byte :: bytes)
  | char {c : Char} {cs : List Char} {bytes : Bytes} (hplus : c ≠ '+') (hpercent : c ≠ '%')
    (h : Unescaped escape cs bytes) :
    Unescaped escape (c :: cs) (String.utf8EncodeChar c ++ bytes)

/-- The escapes that the source reads. -/
def EscapePair (h l : Char) (byte : UInt8) : Prop := HexPair h l byte ∨ SignedPair h l byte

theorem parseHexU8_pair {h l : Char} {byte : UInt8} :
    parseHexU8 (String.ofList [h, l]) = some byte ↔ EscapePair h l byte := by
  have hlt := byte.toNat_lt
  rw [parseHexU8, String.toList_ofList, unsigned]
  by_cases hplus : h = '+'
  · subst hplus
    rw [if_pos rfl, readHex_one]
    have hno : ¬ HexPair '+' l byte := by
      rintro ⟨x, y, hx, -⟩
      exact (hexDigit_char hx).2.1 rfl
    rw [EscapePair, or_iff_right hno, SignedPair, Option.bind_eq_some_iff]
    constructor
    · rintro ⟨n, hn, hb⟩
      rw [if_pos (Nat.lt_trans (hexDigit_lt hn) (by decide)), Option.some.injEq] at hb
      refine ⟨rfl, ?_⟩
      rw [hn, ← hb, UInt8.toNat_ofNat', Nat.mod_eq_of_lt]
      exact Nat.lt_trans (hexDigit_lt hn) (by decide)
    · rintro ⟨-, hl⟩
      refine ⟨byte.toNat, hl, ?_⟩
      rw [if_pos hlt, UInt8.ofNat_toNat]
  · have hno : ¬ SignedPair h l byte := fun hsigned => hplus hsigned.1
    rw [EscapePair, or_iff_left hno, if_neg hplus, Option.bind_eq_some_iff]
    constructor
    · rintro ⟨n, hn, hb⟩
      obtain ⟨x, y, hx, hy, hxy⟩ := readHex_two.mp hn
      have hxlt := hexDigit_lt hx
      have hylt := hexDigit_lt hy
      rw [if_pos (by omega), Option.some.injEq] at hb
      refine ⟨x, y, hx, hy, ?_⟩
      rw [← hb, UInt8.toNat_ofNat', Nat.mod_eq_of_lt (by omega)]
      exact hxy
    · rintro ⟨x, y, hx, hy, hxy⟩
      refine ⟨byte.toNat, readHex_two.mpr ⟨x, y, hx, hy, hxy⟩, ?_⟩
      rw [if_pos hlt, UInt8.ofNat_toNat]

theorem escapePair_chars {h l : Char} {byte : UInt8} (hpair : EscapePair h l byte) :
    h.toNat < 128 ∧ l.toNat < 128 ∧ h ≠ '%' ∧ l ≠ '%' := by
  obtain ⟨x, y, hx, hy, -⟩ | ⟨rfl, hl⟩ := hpair
  · exact ⟨(hexDigit_char hx).1, (hexDigit_char hy).1, (hexDigit_char hx).2.2,
      (hexDigit_char hy).2.2⟩
  · exact ⟨by decide, (hexDigit_char hl).1, by decide, (hexDigit_char hl).2.2⟩

/-- A byte is read from two ASCII characters. -/
theorem escapeByte_eq_ok {high low byte : UInt8} : escapeByte high low = .ok byte ↔
    ∃ h l, high = UInt8.ofNat h.toNat ∧ low = UInt8.ofNat l.toNat ∧ h.toNat < 128 ∧
      l.toNat < 128 ∧ EscapePair h l byte := by
  have hiff : escapeByte high low = .ok byte ↔ (ofUtf8 [high, low]).bind parseHexU8 = some byte := by
    unfold escapeByte
    cases (ofUtf8 [high, low]).bind parseHexU8 <;> simp
  rw [hiff, Option.bind_eq_some_iff]
  constructor
  · rintro ⟨s, hs, hbyte⟩
    rw [ofUtf8_eq_some, textBytes_eq] at hs
    have hascii := parseHexU8_ascii hbyte
    have hbytes : encode s.toList = s.toList.map fun c => UInt8.ofNat c.toNat := by
      rw [encode, List.flatMap_congr fun c hc => utf8EncodeChar_ascii (hascii c hc),
        List.map_eq_flatMap]
    rw [hbytes] at hs
    rcases hlist : s.toList with _ | ⟨h, _ | ⟨l, _ | ⟨c, cs⟩⟩⟩
    · simp [hlist] at hs
    · simp [hlist] at hs
    · rw [hlist] at hs hascii
      obtain ⟨hhigh, hs⟩ := List.cons.inj hs
      obtain ⟨hlow, -⟩ := List.cons.inj hs
      refine ⟨h, l, hhigh.symm, hlow.symm, hascii h (by simp), hascii l (by simp), ?_⟩
      rw [parseHexU8_pair.symm, ← hlist, String.ofList_toList]
      exact hbyte
    · simp [hlist] at hs
  · rintro ⟨h, l, rfl, rfl, hh, hl, hpair⟩
    refine ⟨String.ofList [h, l], ?_, parseHexU8_pair.mpr hpair⟩
    rw [ofUtf8_eq_some, textBytes_eq, String.toList_ofList, encode_cons, encode_cons,
      utf8EncodeChar_ascii hh, utf8EncodeChar_ascii hl]
    rfl

/-- Bytes that are neither a plus nor a percent sign stay. -/
theorem unescape_plain {bs : Bytes} (h : ∀ b ∈ bs, b ≠ 43 ∧ b ≠ 37) (rest : Bytes) :
    unescape (bs ++ rest) = (unescape rest).map (bs ++ ·) := by
  induction bs with
  | nil => cases hrest : unescape rest <;> simp [hrest, Except.map]
  | cons b bs ih =>
    rw [List.forall_mem_cons] at h
    rw [List.cons_append, unescape_other h.1, ih h.2]
    cases unescape rest <;> rfl

/-- The bytes of a character other than a plus and a percent sign are no such bytes. -/
theorem plain_bytes {c : Char} (hplus : c ≠ '+') (hpercent : c ≠ '%') :
    ∀ b ∈ String.utf8EncodeChar c, b ≠ 43 ∧ b ≠ 37 := by
  intro b hb
  by_cases hc : c.toNat < 128
  · rw [utf8EncodeChar_ascii hc, List.mem_singleton] at hb
    have hne : ∀ n < 128, c ≠ Char.ofNat n → b ≠ UInt8.ofNat n := by
      intro n hn hcn heq
      have hnat : c.toNat = n := by
        have hnats := congrArg UInt8.toNat (hb.symm.trans heq)
        rw [UInt8.toNat_ofNat', UInt8.toNat_ofNat'] at hnats
        omega
      exact hcn (by rw [← hnat, Char.ofNat_toNat])
    exact ⟨hne 43 (by decide) hplus, hne 37 (by decide) hpercent⟩
  · have hhigh := (utf8EncodeChar_high (Nat.le_of_not_lt hc)).2 b hb
    constructor
    · rintro rfl
      exact absurd hhigh (by decide)
    · rintro rfl
      exact absurd hhigh (by decide)

theorem unescape_of_unescaped {cs : List Char} {bytes : Bytes}
    (h : Unescaped EscapePair cs bytes) : unescape (encode cs) = .ok bytes := by
  induction h with
  | nil => rfl
  | plus _ ih =>
    rw [encode_cons, utf8EncodeChar_ascii (by decide)]
    show unescape (43 :: encode _) = _
    rw [unescape_plus, ih]
    rfl
  | @escaped high low byte cs bytes hb _ ih =>
    obtain ⟨hhigh, hlow, -, -⟩ := escapePair_chars hb
    have hbyte : escapeByte (UInt8.ofNat high.toNat) (UInt8.ofNat low.toNat) = .ok byte :=
      escapeByte_eq_ok.mpr ⟨high, low, rfl, rfl, hhigh, hlow, hb⟩
    rw [encode_cons, encode_cons, encode_cons, utf8EncodeChar_ascii hhigh,
      utf8EncodeChar_ascii hlow, utf8EncodeChar_ascii (by decide)]
    show unescape (37 :: _ :: _ :: encode cs) = _
    rw [unescape_percent, hbyte, ih]
    rfl
  | char hplus hpercent _ ih =>
    rw [encode_cons, unescape_plain (plain_bytes hplus hpercent), ih]
    rfl

/-- By the length of the text: an escape takes three characters of it. -/
theorem unescaped_of_unescape {cs : List Char} {bytes : Bytes}
    (h : unescape (encode cs) = .ok bytes) : Unescaped EscapePair cs bytes := by
  match cs with
  | [] =>
    obtain rfl := Except.ok.inj h
    exact .nil
  | c :: cs =>
    rw [encode_cons] at h
    by_cases hplus : c = '+'
    · subst hplus
      rw [utf8EncodeChar_ascii (by decide)] at h
      replace h : unescape (43 :: encode cs) = .ok bytes := h
      rw [unescape_plus, exceptMap_eq_ok] at h
      obtain ⟨rest, hrest, rfl⟩ := h
      exact .plus (unescaped_of_unescape hrest)
    · by_cases hpercent : c = '%'
      · subst hpercent
        rw [utf8EncodeChar_ascii (by decide)] at h
        replace h : unescape (37 :: encode cs) = .ok bytes := h
        match hbytes : encode cs with
        | [] =>
          rw [hbytes] at h
          cases h
        | [_] =>
          rw [hbytes] at h
          cases h
        | b :: b' :: rest =>
          rw [hbytes, unescape_percent, exceptBind_eq_ok] at h
          obtain ⟨byte, hbyte, h⟩ := h
          obtain ⟨more, hmore, rfl⟩ := exceptMap_eq_ok.mp h
          obtain ⟨high, low, rfl, rfl, hhigh, hlow, hpair⟩ := escapeByte_eq_ok.mp hbyte
          have hcode : ∀ c : Char, c.toNat < 128 → (UInt8.ofNat c.toNat).toNat = c.toNat := by
            intro c hc
            rw [UInt8.toNat_ofNat', Nat.mod_eq_of_lt (by omega)]
          obtain ⟨high', cs', rfl, hhigh', hbytes'⟩ :=
            encode_ascii (by rw [hcode high hhigh]; exact hhigh) hbytes
          obtain ⟨low', cs'', rfl, hlow', hrest⟩ :=
            encode_ascii (by rw [hcode low hlow]; exact hlow) hbytes'
          rw [hcode high hhigh] at hhigh'
          rw [hcode low hlow] at hlow'
          obtain rfl := Char.toNat_inj.mp hhigh'
          obtain rfl := Char.toNat_inj.mp hlow'
          rw [← hrest] at hmore
          exact .escaped hpair (unescaped_of_unescape hmore)
      · rw [unescape_plain (plain_bytes hplus hpercent), exceptMap_eq_ok] at h
        obtain ⟨rest, hrest, rfl⟩ := h
        exact .char hplus hpercent (unescaped_of_unescape hrest)
termination_by cs.length

theorem decodeFormComponent_eq_ok {s text : String} : decodeFormComponent s = .ok text ↔
    ∃ bytes, Unescaped EscapePair s.toList bytes ∧ ofUtf8 bytes = some text := by
  have hdecode : decodeFormComponent s = (unescape (textBytes s)).bind fun out =>
      match ofUtf8 out with
      | some text => pure text
      | none => .error (invalidArgument "invalid UTF-8 form") := rfl
  rw [hdecode, exceptBind_eq_ok, textBytes_eq]
  constructor
  · rintro ⟨bytes, hbytes, h⟩
    refine ⟨bytes, unescaped_of_unescape hbytes, ?_⟩
    cases hout : ofUtf8 bytes with
    | some text' =>
      rw [hout] at h
      rw [Except.ok.inj h]
    | none =>
      rw [hout] at h
      cases h
  · rintro ⟨bytes, hbytes, h⟩
    refine ⟨bytes, unescape_of_unescaped hbytes, ?_⟩
    rw [h]
    rfl

/-- Text without plus and percent signs says itself. -/
theorem decodeFormComponent_plain {s : String} (h : '+' ∉ s.toList ∧ '%' ∉ s.toList) :
    decodeFormComponent s = .ok s := by
  have hplain : ∀ cs : List Char, '+' ∉ cs ∧ '%' ∉ cs → Unescaped EscapePair cs (encode cs) := by
    intro cs hcs
    induction cs with
    | nil => exact .nil
    | cons c cs ih =>
      simp only [List.mem_cons, not_or] at hcs
      exact .char (Ne.symm hcs.1.1) (Ne.symm hcs.2.1) (ih ⟨hcs.1.2, hcs.2.2⟩)
  exact decodeFormComponent_eq_ok.mpr
    ⟨encode s.toList, hplain s.toList h, ofUtf8_eq_some.mpr (textBytes_eq s)⟩

/-- A text in which a percent sign stands before a plus sign and a hexadecimal digit. -/
def HasSigned (s : String) : Prop :=
  ∃ low x rest, ('%' :: '+' :: low :: rest) <:+ s.toList ∧ hexDigit low = some x

theorem Unescaped.mono {escape escape' : Char → Char → UInt8 → Prop} {cs : List Char}
    {bytes : Bytes} (h : Unescaped escape cs bytes)
    (hle : ∀ high low byte, escape high low byte → escape' high low byte) :
    Unescaped escape' cs bytes := by
  induction h with
  | nil => exact .nil
  | plus _ ih => exact .plus ih
  | escaped hb _ ih => exact .escaped (hle _ _ _ hb) ih
  | char hplus hpercent _ ih => exact .char hplus hpercent ih

/-- Every percent sign of the text is before an escape: no escape has one in it. -/
theorem Unescaped.escape_of_suffix {escape : Char → Char → UInt8 → Prop} {cs : List Char}
    {bytes : Bytes} (h : Unescaped escape cs bytes)
    (hle : ∀ high low byte, escape high low byte → EscapePair high low byte) {high low : Char}
    {rest : List Char} (hs : ('%' :: high :: low :: rest) <:+ cs) : ∃ byte, escape high low byte := by
  induction h with
  | nil => cases List.suffix_nil.mp hs
  | plus _ ih =>
    rcases List.suffix_cons_iff.mp hs with heq | hs
    · cases heq
    · exact ih hs
  | @escaped high' low' byte cs' bytes' hb _ ih =>
    rcases List.suffix_cons_iff.mp hs with heq | hs
    · cases heq
      exact ⟨byte, hb⟩
    · obtain ⟨-, -, hhigh, hlow⟩ := escapePair_chars (hle _ _ _ hb)
      rcases List.suffix_cons_iff.mp hs with heq | hs
      · exact absurd (List.cons.inj heq).1.symm hhigh
      · rcases List.suffix_cons_iff.mp hs with heq | hs
        · exact absurd (List.cons.inj heq).1.symm hlow
        · exact ih hs
  | char _ hpercent _ ih =>
    rcases List.suffix_cons_iff.mp hs with heq | hs
    · exact absurd (List.cons.inj heq).1.symm hpercent
    · exact ih hs

theorem Unescaped.hex {cs : List Char} {bytes : Bytes} (h : Unescaped EscapePair cs bytes)
    (hno : ∀ low x rest, ('%' :: '+' :: low :: rest) <:+ cs → hexDigit low ≠ some x) :
    Unescaped HexPair cs bytes := by
  induction h with
  | nil => exact .nil
  | plus _ ih =>
    exact .plus (ih fun low x rest hs => hno low x rest (hs.trans (List.suffix_cons _ _)))
  | @escaped high low byte cs bytes hb _ ih =>
    have hcs : cs <:+ '%' :: high :: low :: cs := ⟨['%', high, low], rfl⟩
    obtain hhex | ⟨rfl, hlow⟩ := hb
    · exact .escaped hhex (ih fun low x rest hs => hno low x rest (hs.trans hcs))
    · exact absurd hlow (hno low byte.toNat cs (List.suffix_refl _))
  | char hplus hpercent _ ih =>
    exact .char hplus hpercent
      (ih fun low x rest hs => hno low x rest (hs.trans (List.suffix_cons _ _)))

/-- A component is decoded exactly unless a signed digit is read as an escape in it. -/
theorem decodeFormComponent_exact_iff (s : String) :
    (∀ text, decodeFormComponent s = .ok text ↔
      ∃ bytes, Unescaped HexPair s.toList bytes ∧ ofUtf8 bytes = some text) ↔
    (HasSigned s → ∀ bytes, Unescaped EscapePair s.toList bytes → ofUtf8 bytes = none) := by
  constructor
  · rintro hexact ⟨low, x, rest, hs, hx⟩ bytes hbytes
    cases htext : ofUtf8 bytes with
    | none => rfl
    | some text =>
      obtain ⟨bytes', hbytes', -⟩ :=
        (hexact text).mp (decodeFormComponent_eq_ok.mpr ⟨bytes, hbytes, htext⟩)
      obtain ⟨byte, x, y, hplus, -⟩ := hbytes'.escape_of_suffix (fun _ _ _ => .inl) hs
      exact absurd rfl (hexDigit_char hplus).2.1
  · intro hsigned text
    rw [decodeFormComponent_eq_ok]
    constructor
    · rintro ⟨bytes, hbytes, htext⟩
      refine ⟨bytes, hbytes.hex fun low x rest hs hx => ?_, htext⟩
      have hnone := hsigned ⟨low, x, rest, hs, hx⟩ bytes hbytes
      rw [htext] at hnone
      cases hnone
    · rintro ⟨bytes, hbytes, htext⟩
      exact ⟨bytes, hbytes.mono fun _ _ _ => .inl, htext⟩

/-- The escape of a plus sign and an `F` is read as the byte 15. -/
theorem decodeFormComponent_signed : ¬ ∀ s text, decodeFormComponent s = .ok text ↔
    ∃ bytes, Unescaped HexPair s.toList bytes ∧ ofUtf8 bytes = some text := by
  intro hexact
  have hbytes : Unescaped EscapePair "%+F".toList [15] :=
    .escaped (.inr ⟨rfl, by decide⟩) .nil
  have htext : ofUtf8 [15] = some "\x0F" := by
    rw [ofUtf8_eq_some, textBytes_eq]
    decide
  obtain ⟨bytes, hhex, -⟩ :=
    (hexact "%+F" "\x0F").mp (decodeFormComponent_eq_ok.mpr ⟨[15], hbytes, htext⟩)
  cases hhex with
  | escaped hb _ =>
    obtain ⟨x, y, hplus, -⟩ := hb
    exact absurd rfl (hexDigit_char hplus).2.1
  | char _ hpercent _ => exact hpercent rfl

end FirebaseEmu.Firestore.Web
