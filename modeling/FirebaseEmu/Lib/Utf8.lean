import FirebaseEmu.Lib.Search

namespace FirebaseEmu.Lib

/-- `str::as_bytes`. -/
def textBytes (s : String) : List UInt8 := s.toByteArray.data.toList

/-- `String::from_utf8`. -/
def ofUtf8 (bytes : List UInt8) : Option String := String.fromUTF8? ⟨bytes.toArray⟩

/-- The bytes of a text, a character after the other. -/
def encode (cs : List Char) : List UInt8 := cs.flatMap String.utf8EncodeChar

theorem textBytes_eq (s : String) : textBytes s = encode s.toList := by
  rw [textBytes, ← String.utf8Encode_toList, List.utf8Encode, List.data_toByteArray, encode]

theorem ofUtf8_eq_some {bytes : List UInt8} {s : String} :
    ofUtf8 bytes = some s ↔ textBytes s = bytes := by
  rw [ofUtf8, String.fromUTF8?]
  split
  · rename_i hvalid
    rw [Option.some.injEq, textBytes]
    constructor
    · rintro rfl
      rfl
    · rintro rfl
      rfl
  · rename_i hvalid
    constructor
    · intro h
      cases h
    · rintro rfl
      exact absurd s.isValidUTF8 hvalid

theorem encode_cons (c : Char) (cs : List Char) :
    encode (c :: cs) = String.utf8EncodeChar c ++ encode cs := List.flatMap_cons

theorem utf8EncodeChar_ascii {c : Char} (h : c.toNat < 128) :
    String.utf8EncodeChar c = [UInt8.ofNat c.toNat] := by
  have hle : c.val.toNat ≤ 127 := Nat.le_of_lt_succ h
  simp only [String.utf8EncodeChar, if_pos hle]
  rfl

/-- A character beyond the ASCII ones is more than one byte, none of them an ASCII one. -/
theorem utf8EncodeChar_high {c : Char} (h : 128 ≤ c.toNat) :
    2 ≤ (String.utf8EncodeChar c).length ∧ ∀ b ∈ String.utf8EncodeChar c, 128 ≤ b.toNat := by
  have hc : 128 ≤ c.val.toNat := h
  have hlt : c.val.toNat < 1114112 := by
    obtain hlow | hhigh := c.valid
    · exact Nat.lt_trans hlow (by decide)
    · exact hhigh.2
  simp only [String.utf8EncodeChar, if_neg (show ¬ c.val.toNat ≤ 127 by omega)]
  split
  · simp
    omega
  · split
    · simp
      omega
    · simp
      omega

/-- An ASCII byte of a text is one of its characters. -/
theorem mem_encode_ascii {cs : List Char} {b : UInt8} (hb : b.toNat < 128) (h : b ∈ encode cs) :
    ∃ c ∈ cs, c.toNat = b.toNat := by
  obtain ⟨c, hc, hbc⟩ := List.mem_flatMap.mp h
  refine ⟨c, hc, ?_⟩
  by_cases hlow : c.toNat < 128
  · rw [utf8EncodeChar_ascii hlow, List.mem_singleton] at hbc
    rw [hbc]
    simp
    omega
  · have := (utf8EncodeChar_high (Nat.le_of_not_lt hlow)).2 b hbc
    omega

/-- A text that starts with an ASCII byte starts with that character. -/
theorem encode_ascii {cs : List Char} {b : UInt8} {bytes : List UInt8} (hb : b.toNat < 128)
    (h : encode cs = b :: bytes) :
    ∃ c rest, cs = c :: rest ∧ c.toNat = b.toNat ∧ encode rest = bytes := by
  cases cs with
  | nil => cases h
  | cons c cs =>
    rw [encode_cons] at h
    by_cases hc : c.toNat < 128
    · rw [utf8EncodeChar_ascii hc, List.singleton_append, List.cons.injEq] at h
      refine ⟨c, cs, rfl, ?_, h.2⟩
      rw [← h.1]
      simp
      omega
    · have hhigh := utf8EncodeChar_high (Nat.le_of_not_lt hc)
      cases hbs : String.utf8EncodeChar c with
      | nil => simp [hbs] at hhigh
      | cons b' bs =>
        rw [hbs, List.cons_append, List.cons.injEq] at h
        have hb' := hhigh.2 b' (by rw [hbs]; exact List.mem_cons_self)
        rw [h.1] at hb'
        omega

theorem encode_append (a b : List Char) : encode (a ++ b) = encode a ++ encode b :=
  List.flatMap_append

theorem textBytes_append (a b : String) : textBytes (a ++ b) = textBytes a ++ textBytes b := by
  simp only [textBytes_eq, String.toList_append, encode_append]

theorem utf8EncodeChar_ne_nil (c : Char) : String.utf8EncodeChar c ≠ [] := by
  intro h
  have hlen := String.length_utf8EncodeChar c
  have hpos := Char.utf8Size_pos c
  rw [h, List.length_nil] at hlen
  omega

theorem encode_eq_nil {cs : List Char} : encode cs = [] ↔ cs = [] := by
  constructor
  · intro h
    cases cs with
    | nil => rfl
    | cons c cs =>
      rw [encode_cons, List.append_eq_nil_iff] at h
      exact absurd h.1 (utf8EncodeChar_ne_nil c)
  · rintro rfl
    rfl

/-- No character's bytes start those of another one. -/
theorem utf8EncodeChar_append_inj {c d : Char} {x y : List UInt8}
    (h : String.utf8EncodeChar c ++ x = String.utf8EncodeChar d ++ y) : c = d ∧ x = y := by
  have hc := @ByteArray.utf8DecodeChar?_utf8EncodeChar_append x.toByteArray c
  have hd := @ByteArray.utf8DecodeChar?_utf8EncodeChar_append y.toByteArray d
  rw [← List.toByteArray_append] at hc hd
  rw [h, hd] at hc
  obtain rfl := Option.some.inj hc
  exact ⟨rfl, List.append_cancel_left h⟩

/-- The bytes of a text start with those of another one only when the text does. -/
theorem prefix_of_encode {d cs : List Char} (h : encode d <+: encode cs) : d <+: cs := by
  induction d generalizing cs with
  | nil => exact List.nil_prefix
  | cons x d ih =>
    cases cs with
    | nil =>
      have hnil := List.prefix_nil.mp h
      exact absurd (encode_eq_nil.mp hnil) (List.cons_ne_nil x d)
    | cons c cs =>
      obtain ⟨rest, hrest⟩ := h
      rw [encode_cons, encode_cons, List.append_assoc] at hrest
      obtain ⟨rfl, htail⟩ := utf8EncodeChar_append_inj hrest
      exact List.cons_prefix_cons.mpr ⟨rfl, ih ⟨rest, htail⟩⟩

/-- Where the bytes of a text occur in those of another one, the text itself occurs. -/
theorem encode_occurs {d cs : List Char} (hd : d ≠ []) {i : Nat}
    (h : encode d <+: (encode cs).drop i) :
    ∃ before after, cs = before ++ d ++ after ∧ (encode before).length = i := by
  induction cs generalizing i with
  | nil =>
    have hnil : encode d = [] := by simpa [encode] using h
    exact absurd (encode_eq_nil.mp hnil) hd
  | cons c cs ih =>
    rw [encode_cons] at h
    by_cases hle : (String.utf8EncodeChar c).length ≤ i
    · obtain ⟨k, rfl⟩ := Nat.exists_eq_add_of_le hle
      rw [List.drop_length_add_append] at h
      obtain ⟨before, after, rfl, hlen⟩ := ih h
      refine ⟨c :: before, after, rfl, ?_⟩
      rw [encode_cons, List.length_append, hlen]
    · have hlt := Nat.lt_of_not_le hle
      cases d with
      | nil => exact absurd rfl hd
      | cons x d =>
        -- the first byte of the text begins a character, so `i` is inside none
        obtain ⟨b, bs, hx⟩ := List.exists_cons_of_ne_nil (utf8EncodeChar_ne_nil x)
        have hfirst : b.IsUTF8FirstByte := by
          have := UInt8.isUTF8FirstByte_getElem_zero_utf8EncodeChar (c := x)
          simpa only [hx, List.getElem_cons_zero] using this
        have hbyte : b = (String.utf8EncodeChar c)[i] := by
          rw [encode_cons, hx, List.drop_append_of_le_length (Nat.le_of_lt hlt),
            List.drop_eq_getElem_cons hlt] at h
          exact (List.cons_prefix_cons.mp h).1
        rw [hbyte] at hfirst
        have hzero := UInt8.isUTF8FirstByte_getElem_utf8EncodeChar.mp hfirst
        subst hzero
        rw [List.drop_zero, ← encode_cons] at h
        obtain ⟨after, hafter⟩ := prefix_of_encode h
        exact ⟨[], after, hafter.symm, rfl⟩
/-- In the bytes of a text another text is found where it is found in the text. -/
theorem find_encode {d : List Char} (hd : d ≠ []) (cs : List Char) :
    find (encode cs) (encode d) = (find cs d).map fun i => (encode (cs.take i)).length := by
  cases hf : find cs d with
  | none =>
    cases hb : find (encode cs) (encode d) with
    | none => rfl
    | some j =>
      obtain ⟨before, after, rfl, -⟩ := encode_occurs hd (find_eq_some hb).here
      have hoccurs : d <+: (before ++ d ++ after).drop before.length := by
        rw [List.append_assoc, List.drop_left]
        exact List.prefix_append d after
      exact absurd hf (find_ne_none hoccurs)
  | some i =>
    have hfound := find_eq_some hf
    rw [Option.map_some]
    refine FoundAt.find ⟨?_, ?_⟩
    · obtain ⟨after, hafter⟩ := hfound.here
      have hsplit : encode cs = encode (cs.take i) ++ (encode d ++ encode after) := by
        rw [← encode_append, ← encode_append, hafter, List.take_append_drop]
      rw [hsplit, List.drop_left]
      exact List.prefix_append _ _
    · intro j hj hp
      obtain ⟨before, after, rfl, hlen⟩ := encode_occurs hd hp
      have hle : i ≤ before.length := by
        by_contra hlt
        refine hfound.first before.length (Nat.lt_of_not_le hlt) ?_
        rw [List.append_assoc, List.drop_left]
        exact List.prefix_append d after
      rw [List.append_assoc, List.take_append_of_le_length hle] at hj
      obtain ⟨rest, hrest⟩ := List.take_prefix i before
      have hmore := congrArg (fun cs => (encode cs).length) hrest
      simp only [encode_append, List.length_append] at hmore
      omega

end FirebaseEmu.Lib
