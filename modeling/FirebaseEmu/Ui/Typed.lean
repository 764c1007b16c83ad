import FirebaseEmu.Firestore.JsonRoundTrip
import FirebaseEmu.Lib.Results
import FirebaseEmu.Ui.Paths

namespace FirebaseEmu.Ui
open Lib Firestore

/-- The whole numbers a text or a JSON number can say. -/
def saysI64 (v : Json) : Bool := v.asI64.isSome || (v.asStr.bind parseI64).isSome

def typedTimestamp (inner : Json) : Bool :=
  inner.asStr.isSome || inner.asObject.any fun entries =>
    entries.length == 2 && (inner.find? "seconds").any saysI64 &&
      ((inner.find? "nanos").bind Json.asI64).any fun n =>
        decide (0 ≤ n.toInt ∧ n.toInt < 1000000000)

def typedDegrees (bound : Int) (v : Json) : Bool :=
  v.asF64.any fun x => x.isFinite && (Binary64.ofInt (-bound)).le x && x.le (.ofInt bound)

def typedGeoPoint (inner : Json) : Bool :=
  inner.asObject.any fun entries =>
    entries.length == 2 && (inner.find? "latitude").any (typedDegrees 90) &&
      (inner.find? "longitude").any (typedDegrees 180)

/-- The arms of the match on the kind that look at nothing nested. -/
def typedLeaf (kind : String) (inner : Json) : Bool :=
  match kind with
  | "nullValue" => match inner with
    | .null => true
    | _ => false
  | "booleanValue" => inner.asBool.isSome
  | "integerValue" => (inner.asStr.bind parseI64).isSome
  | "doubleValue" => inner.asF64.any Binary64.isFinite || (inner.asStr.bind doubleText).isSome
  | "stringValue" | "referenceValue" | "bytesValue" => inner.asStr.isSome
  | "timestampValue" => typedTimestamp inner
  | "geoPointValue" => typedGeoPoint inner
  | _ => false

/-- What stands alone under the key of an object. -/
def onlyEntry (v : Json) (key : String) : Option Json :=
  v.asObject.bind fun entries => if entries.length == 1 then v.find? key else none

/-- `left` is how many levels of nesting are still allowed. -/
def validateTyped : (left : Nat) → Json → Except String Unit
  | 0, _ => .error "nested value is too deep"
  | left + 1, value =>
    match value.asObject with
    | none => .error "value needs one Firestore type wrapper"
    | some [(kind, inner)] =>
      match kind with
      | "arrayValue" => match (onlyEntry inner "values").bind Json.asArray with
        | none => .error "array needs a values list"
        | some values => values.forM (validateTyped left)
      | "mapValue" => match (onlyEntry inner "fields").bind Json.asObject with
        | none => .error "map needs a fields object"
        | some fields => fields.forM fun field =>
          if !validDocumentSegment field.1 then .error "map has an invalid field name"
          else validateTyped left field.2
      | kind => if typedLeaf kind inner then .ok ()
        else .error "invalid Firestore value or type"
    | some _ => .error "value needs exactly one Firestore type wrapper"

def validateTypedValue (value : Json) (depth : Nat) : Except String Unit :=
  validateTyped (21 - depth) value

section Kept
variable (readers : TextReaders) (formats : TextFormats)

/-- A JSON number, or a text, that says the whole number. -/
def SaysI64 (v : Json) (i : Int64) : Prop :=
  v.asI64 = some i ∨ ∃ s, v = .string s ∧ parseI64 s = some i

/-- The two values have one tree of wrappers, lengths and keys, and the leaves of the second
are those of the first in their canonical spelling. -/
inductive SameTyped : Json → Json → Prop
  | null : SameTyped (wrapped "nullValue" .null) (wrapped "nullValue" .null)
  | boolean (b : Bool) :
    SameTyped (wrapped "booleanValue" (.bool b)) (wrapped "booleanValue" (.bool b))
  | integer {s : String} {i : Int64} (h : parseI64 s = some i) :
    SameTyped (wrapped "integerValue" (.string s))
      (wrapped "integerValue" (.string (toString i.toInt)))
  | double {x : Json} {d : Binary64} (h : x.asF64 = some d) (hd : d.isFinite = true) :
    SameTyped (wrapped "doubleValue" x) (wrapped "doubleValue" (.ofDouble d))
  | doubleName {s : String} (h : s ∈ ["NaN", "Infinity", "-Infinity"]) :
    SameTyped (wrapped "doubleValue" (.string s)) (wrapped "doubleValue" (.string s))
  | string (s : String) :
    SameTyped (wrapped "stringValue" (.string s)) (wrapped "stringValue" (.string s))
  | reference (s : String) :
    SameTyped (wrapped "referenceValue" (.string s)) (wrapped "referenceValue" (.string s))
  | bytes {s : String} {b : Bytes} (h : readers.base64 s = some b) :
    SameTyped (wrapped "bytesValue" (.string s)) (wrapped "bytesValue" (.string (formats.base64 b)))
  | timestamp {s : String} {t : Timestamp} (h : readers.timestamp s = some t) :
    SameTyped (wrapped "timestampValue" (.string s))
      (wrapped "timestampValue" (.string (formats.timestamp t)))
  | timestampParts {x sv nv : Json} {seconds : Int64} {nanos : Int32}
    (hx : x.asObject.map List.length = some 2)
    (hsv : x.find? "seconds" = some sv) (hs : SaysI64 sv seconds)
    (hnv : x.find? "nanos" = some nv) (hn : nv.asI64.map Int64.toInt = some nanos.toInt)
    (hrange : 0 ≤ nanos.toInt ∧ nanos.toInt < 1000000000) :
    SameTyped (wrapped "timestampValue" x)
      (wrapped "timestampValue" (.string (formats.timestamp ⟨seconds, nanos⟩)))
  | geoPoint {x latv longv : Json} {latitude longitude : Binary64}
    (hx : x.asObject.map List.length = some 2)
    (hlatv : x.find? "latitude" = some latv) (hlat : latv.asF64 = some latitude)
    (hlongv : x.find? "longitude" = some longv) (hlong : longv.asF64 = some longitude)
    (hf : latitude.isFinite = true ∧ longitude.isFinite = true) :
    SameTyped (wrapped "geoPointValue" x) (wrapped "geoPointValue" (.object
      [("latitude", .ofDouble latitude), ("longitude", .ofDouble longitude)]))
  | array {xs ys : List Json} (h : List.Forall₂ SameTyped xs ys) :
    SameTyped (wrapped "arrayValue" (wrapped "values" (.array xs)))
      (wrapped "arrayValue" (wrapped "values" (.array ys)))
  | map {xs ys : List (String × Json)} (hkeys : xs.map Prod.fst = ys.map Prod.fst)
    (h : List.Forall₂ SameTyped (xs.map Prod.snd) (ys.map Prod.snd)) :
    SameTyped (wrapped "mapValue" (wrapped "fields" (.object xs)))
      (wrapped "mapValue" (wrapped "fields" (.object ys)))

/-- The value holds a byte string that is no base64, or a text that is no timestamp, and the
status says so. -/
inductive Unreadable : Json → Status → Prop
  | bytes {s : String} (h : readers.base64 s = none) :
    Unreadable (wrapped "bytesValue" (.string s)) (invalidArgument "invalid base64")
  | timestamp {s : String} (h : readers.timestamp s = none) :
    Unreadable (wrapped "timestampValue" (.string s)) (invalidArgument "invalid timestamp")
  | array {xs : List Json} {x : Json} {status : Status} (hm : x ∈ xs) (h : Unreadable x status) :
    Unreadable (wrapped "arrayValue" (wrapped "values" (.array xs))) status
  | map {xs : List (String × Json)} {k : String} {x : Json} {status : Status}
    (hm : (k, x) ∈ xs) (h : Unreadable x status) :
    Unreadable (wrapped "mapValue" (wrapped "fields" (.object xs))) status

/-- The codec keeps the value, or says what in it is unreadable. -/
def CodecKeeps (j : Json) : Prop :=
  (∃ v, valueProto readers j = .ok v ∧ SameTyped readers formats j (valueJson formats v)) ∨
    ∃ status, valueProto readers j = .error status ∧ Unreadable readers j status

variable {readers formats}

theorem onlyEntry_eq {v x : Json} {key : String} (h : onlyEntry v key = some x) :
    v = wrapped key x := by
  obtain ⟨entries, hentries, hx⟩ := Option.bind_eq_some_iff.mp h
  cases v with
  | object entries' =>
    obtain rfl := Option.some.inj hentries
    match entries' with
    | [] => simp at hx
    | [(k, a)] =>
      rw [List.length_singleton, if_pos (by decide)] at hx
      have hfind := (find?_wrapped k key a).symm.trans hx
      by_cases hk : key = k
      · rw [if_pos hk] at hfind
        rw [Option.some.inj hfind, hk]
        rfl
      · rw [if_neg hk] at hfind
        cases hfind
    | _ :: _ :: _ => simp at hx
  | _ => cases hentries

theorem doubleJson_finite {d : Binary64} (h : d.isFinite = true) : doubleJson d = .ofDouble d := by
  have hinf : ∀ s, d.eq (.infinity s) = false := by
    intro s
    apply Bool.eq_false_iff.mpr
    intro heq
    rw [Binary64.eq_infinity heq] at h
    cases s <;> exact absurd h (by decide)
  simp [doubleJson, Binary64.not_isNan h, hinf]

theorem doubleText_mem {s : String} {d : Binary64} (h : doubleText s = some d) :
    s ∈ ["NaN", "Infinity", "-Infinity"] := by
  unfold doubleText at h
  simp only [List.mem_cons, List.not_mem_nil, or_false]
  by_contra hne
  obtain ⟨hnan, hpos, hneg⟩ : s ≠ "NaN" ∧ s ≠ "Infinity" ∧ s ≠ "-Infinity" := by
    simpa [not_or] using hne
  rw [if_neg hnan, if_neg hpos, if_neg hneg] at h
  cases h

/-- The names of doubles are written as they are read. -/
theorem doubleJson_doubleText {s : String} {d : Binary64} (h : doubleText s = some d) :
    doubleJson d = .string s := by
  have hinf : ∀ s, (Binary64.infinity s).isNan = false := by decide
  have hself : ∀ s, (Binary64.infinity s).eq (.infinity s) = true := by
    intro s
    rw [Binary64.eq_self, hinf]
    rfl
  have hdiffer : (Binary64.infinity true).eq (.infinity false) = false := by
    apply Bool.eq_false_iff.mpr
    intro heq
    exact absurd (Binary64.eq_infinity heq) (by decide)
  unfold doubleText at h
  split at h
  · rename_i hs
    rw [← Option.some.inj h, hs]
    rfl
  · split at h
    · rename_i hs
      rw [← Option.some.inj h, hs]
      simp [doubleJson, hinf, hself]
    · split at h
      · rename_i hs
        rw [← Option.some.inj h, hs]
        simp [doubleJson, hinf, hself, hdiffer]
      · cases h

theorem keeps_integer {inner : Json} (h : (inner.asStr.bind parseI64).isSome = true) :
    CodecKeeps readers formats (wrapped "integerValue" inner) := by
  obtain ⟨i, hi⟩ := Option.isSome_iff_exists.mp h
  obtain ⟨s, hs, hparse⟩ := Option.bind_eq_some_iff.mp hi
  cases inner with
  | string s' =>
    obtain rfl := Option.some.inj hs
    have hread : integerProto (.string s') = .ok i := by
      simp [integerProto, Json.asI64, Json.asStr, hparse]
    refine .inl ⟨.integerValue i, ?_, .integer hparse⟩
    rw [valueProto_integer, hread]
    rfl
  | _ => cases hs

theorem keeps_double {inner : Json}
    (h : (inner.asF64.any Binary64.isFinite || (inner.asStr.bind doubleText).isSome) = true) :
    CodecKeeps readers formats (wrapped "doubleValue" inner) := by
  cases hd : inner.asF64 with
  | some d =>
    have hf : d.isFinite = true := by
      cases inner <;> simp_all [Json.asF64, Json.asStr]
    have hread : doubleProto inner = .ok d := by simp [doubleProto, hd]
    refine .inl ⟨.doubleValue d, ?_, ?_⟩
    · rw [valueProto_double, hread]
      rfl
    · rw [valueJson, doubleJson_finite hf]
      exact .double hd hf
  | none =>
    rw [hd, Option.any_none, Bool.false_or] at h
    obtain ⟨d, hd'⟩ := Option.isSome_iff_exists.mp h
    obtain ⟨s, hs, htext⟩ := Option.bind_eq_some_iff.mp hd'
    cases inner with
    | string s' =>
      obtain rfl := Option.some.inj hs
      have hread : doubleProto (.string s') = .ok d := by
        simp [doubleProto, Json.asF64, Json.asStr, htext]
      refine .inl ⟨.doubleValue d, ?_, ?_⟩
      · rw [valueProto_double, hread]
        rfl
      · rw [valueJson, doubleJson_doubleText htext]
        exact .doubleName (doubleText_mem htext)
    | _ => cases hs

theorem keeps_bytes (s : String) :
    CodecKeeps readers formats (wrapped "bytesValue" (.string s)) := by
  cases hb : readers.base64 s with
  | some b =>
    refine .inl ⟨.bytesValue b, ?_, .bytes hb⟩
    rw [valueProto_bytes, bytesProto, hb]
    rfl
  | none =>
    refine .inr ⟨_, ?_, .bytes hb⟩
    rw [valueProto_bytes, bytesProto, hb]
    rfl

theorem saysI64_exists {v : Json} (h : saysI64 v = true) :
    ∃ i, SaysI64 v i ∧ (v.asI64 <|> v.asStr.bind parseI64) = some i := by
  cases hi : v.asI64 with
  | some i => exact ⟨i, .inl hi, rfl⟩
  | none =>
    rw [saysI64, hi, Option.isSome_none, Bool.false_or] at h
    obtain ⟨i, hparse⟩ := Option.isSome_iff_exists.mp h
    obtain ⟨s, hs, hread⟩ := Option.bind_eq_some_iff.mp hparse
    cases v with
    | string s' =>
      obtain rfl := Option.some.inj hs
      exact ⟨i, .inr ⟨s', rfl, hread⟩, hparse⟩
    | _ => cases hs

theorem keeps_timestampText (s : String) :
    CodecKeeps readers formats (wrapped "timestampValue" (.string s)) := by
  cases ht : readers.timestamp s with
  | some t =>
    refine .inl ⟨.timestampValue t, ?_, .timestamp ht⟩
    rw [valueProto_timestamp]
    simp [timestampProto, Json.asStr, ht, Except.map]
  | none =>
    refine .inr ⟨_, ?_, .timestamp ht⟩
    rw [valueProto_timestamp]
    simp [timestampProto, Json.asStr, ht, Except.map]

/-- Nanoseconds in range are not cut when they are kept in 32 bits. -/
theorem nanos_kept {n : Int64} (h : 0 ≤ n.toInt ∧ n.toInt < 1000000000) :
    n.toInt32.toInt = n.toInt := by
  rw [Int64.toInt_toInt32]
  apply Int.bmod_eq_of_le <;> omega

theorem keeps_timestamp {inner : Json} (h : typedTimestamp inner = true) :
    CodecKeeps readers formats (wrapped "timestampValue" inner) := by
  cases inner with
  | string s => exact keeps_timestampText s
  | object entries =>
    simp only [typedTimestamp, Json.asStr, Option.isSome_none, Bool.false_or, Json.asObject,
      Option.any_some, Bool.and_eq_true, beq_iff_eq] at h
    obtain ⟨⟨hlength, hseconds⟩, hnanos⟩ := h
    obtain ⟨sv, hsv, hsays⟩ := (Option.any_eq_true _ _).mp hseconds
    obtain ⟨n, hn, hrange⟩ := (Option.any_eq_true _ _).mp hnanos
    obtain ⟨nv, hnv, hn⟩ := Option.bind_eq_some_iff.mp hn
    obtain ⟨i, hi, hread⟩ := saysI64_exists hsays
    have hrange := of_decide_eq_true hrange
    have hkept := nanos_kept hrange
    have hproto : timestampProto readers (.object entries) = .ok ⟨i, n.toInt32⟩ := by
      have hgets : Json.get "seconds" (.object entries) = sv := by
        rw [Json.get_eq, hsv]
        rfl
      have hgetn : Json.get "nanos" (.object entries) = nv := by
        rw [Json.get_eq, hnv]
        rfl
      have hobject : Json.asStr (.object entries) = none := rfl
      rw [timestampProto, hobject, hgets, hgetn, hread, hn]
      rfl
    refine .inl ⟨.timestampValue ⟨i, n.toInt32⟩, ?_, ?_⟩
    · rw [valueProto_timestamp, hproto]
      rfl
    · refine .timestampParts ?_ hsv hi hnv ?_ ?_
      · simp [Json.asObject, hlength]
      · rw [hn, hkept]
        rfl
      · rw [hkept]
        exact hrange
  | _ => simp [typedTimestamp, Json.asStr, Json.asObject] at h

theorem typedDegrees_exists {bound : Int} {v : Json} (h : typedDegrees bound v = true) :
    ∃ x, v.asF64 = some x ∧ x.isFinite = true := by
  obtain ⟨x, hx, hx'⟩ := (Option.any_eq_true _ _).mp h
  simp only [Bool.and_eq_true] at hx'
  exact ⟨x, hx, hx'.1.1⟩

theorem keeps_geoPoint {inner : Json} (h : typedGeoPoint inner = true) :
    CodecKeeps readers formats (wrapped "geoPointValue" inner) := by
  cases inner with
  | object entries =>
    simp only [typedGeoPoint, Json.asObject, Option.any_some, Bool.and_eq_true, beq_iff_eq] at h
    obtain ⟨⟨hlength, hlatitude⟩, hlongitude⟩ := h
    obtain ⟨latv, hlatv, hlatitude⟩ := (Option.any_eq_true _ _).mp hlatitude
    obtain ⟨longv, hlongv, hlongitude⟩ := (Option.any_eq_true _ _).mp hlongitude
    obtain ⟨latitude, hlat, hlatf⟩ := typedDegrees_exists hlatitude
    obtain ⟨longitude, hlong, hlongf⟩ := typedDegrees_exists hlongitude
    refine .inl ⟨.geoPointValue latitude longitude, ?_, ?_⟩
    · rw [valueProto_geoPoint, Json.get_eq, Json.get_eq, hlatv, hlongv, Option.getD_some,
        Option.getD_some, hlat, hlong]
      rfl
    · have htwo : (Json.asObject (.object entries)).map List.length = some 2 := by
        simp [Json.asObject, hlength]
      exact .geoPoint htwo hlatv hlat hlongv hlong ⟨hlatf, hlongf⟩
  | _ => simp [typedGeoPoint, Json.asObject] at h

theorem keeps_leaf {kind : String} {inner : Json} (h : typedLeaf kind inner = true) :
    CodecKeeps readers formats (wrapped kind inner) := by
  unfold typedLeaf at h
  split at h
  · cases inner with
    | null => exact .inl ⟨.nullValue 0, valueProto_null readers .null, .null⟩
    | _ => cases h
  · cases inner with
    | bool b => exact .inl ⟨.booleanValue b, valueProto_boolean readers b, .boolean b⟩
    | _ => cases h
  · exact keeps_integer h
  · exact keeps_double h
  · cases inner with
    | string s => exact .inl ⟨.stringValue s, valueProto_string readers s, .string s⟩
    | _ => cases h
  · cases inner with
    | string s => exact .inl ⟨.referenceValue s, valueProto_reference readers s, .reference s⟩
    | _ => cases h
  · cases inner with
    | string s => exact keeps_bytes s
    | _ => cases h
  · exact keeps_timestamp h
  · exact keeps_geoPoint h
  · cases h

theorem keeps_array {values : List Json} (h : ∀ x ∈ values, CodecKeeps readers formats x) :
    CodecKeeps readers formats (wrapped "arrayValue" (wrapped "values" (.array values))) := by
  have hvalues : (∃ vs, valuesProto readers values = .ok vs ∧
      List.Forall₂ (SameTyped readers formats) values (valuesJson formats vs)) ∨
      ∃ status, valuesProto readers values = .error status ∧
        ∃ x ∈ values, Unreadable readers x status := by
    induction values with
    | nil =>
      refine .inl ⟨[], ?_, .nil⟩
      rw [valuesProto]
    | cons x values ih =>
      rw [List.forall_mem_cons] at h
      rw [valuesProto]
      obtain ⟨v, hv, hsame⟩ | ⟨status, hstatus, hbad⟩ := h.1
      · obtain ⟨vs, hvs, hrest⟩ | ⟨status, hstatus, y, hy, hbad⟩ := ih h.2
        · refine .inl ⟨v :: vs, ?_, .cons hsame hrest⟩
          rw [hv, hvs]
          rfl
        · refine .inr ⟨status, ?_, y, List.mem_cons_of_mem _ hy, hbad⟩
          rw [hv, hstatus]
          rfl
      · refine .inr ⟨status, ?_, x, List.mem_cons_self, hbad⟩
        rw [hstatus]
        rfl
  obtain ⟨vs, hvs, hsame⟩ | ⟨status, hstatus, x, hx, hbad⟩ := hvalues
  · refine .inl ⟨.arrayValue vs, ?_, .array hsame⟩
    rw [valueProto_array, hvs]
    rfl
  · refine .inr ⟨status, ?_, .array hx hbad⟩
    rw [valueProto_array, hstatus]
    rfl

theorem keeps_map {entries : List (String × Json)}
    (h : ∀ entry ∈ entries, CodecKeeps readers formats entry.2) :
    CodecKeeps readers formats (wrapped "mapValue" (wrapped "fields" (.object entries))) := by
  have hentries : (∃ fields, entriesProto readers entries = .ok fields ∧
      entries.map Prod.fst = (fieldsJson formats fields).map Prod.fst ∧
      List.Forall₂ (SameTyped readers formats) (entries.map Prod.snd)
        ((fieldsJson formats fields).map Prod.snd)) ∨
      ∃ status, entriesProto readers entries = .error status ∧
        ∃ entry ∈ entries, Unreadable readers entry.2 status := by
    induction entries with
    | nil =>
      refine .inl ⟨[], ?_, rfl, .nil⟩
      rw [entriesProto]
    | cons entry entries ih =>
      obtain ⟨k, x⟩ := entry
      rw [List.forall_mem_cons] at h
      rw [entriesProto]
      obtain ⟨v, hv, hsame⟩ | ⟨status, hstatus, hbad⟩ := h.1
      · obtain ⟨fields, hfields, hkeys, hrest⟩ | ⟨status, hstatus, y, hy, hbad⟩ := ih h.2
        · refine .inl ⟨(k, v) :: fields, ?_, ?_, .cons hsame hrest⟩
          · rw [hv, hfields]
            rfl
          · rw [fieldsJson, List.map_cons, List.map_cons, hkeys]
        · refine .inr ⟨status, ?_, y, List.mem_cons_of_mem _ hy, hbad⟩
          rw [hv, hstatus]
          rfl
      · refine .inr ⟨status, ?_, (k, x), List.mem_cons_self, hbad⟩
        rw [hstatus]
        rfl
  obtain ⟨fields, hfields, hkeys, hsame⟩ | ⟨status, hstatus, entry, hentry, hbad⟩ := hentries
  · refine .inl ⟨.mapValue fields, ?_, .map hkeys hsame⟩
    rw [valueProto_map, hfields]
    rfl
  · refine .inr ⟨status, ?_, .map hentry hbad⟩
    rw [valueProto_map, hstatus]
    rfl

/-- By the levels that are left: a level admits what the codec keeps if the next one does. -/
theorem validateTyped_keeps {left : Nat} {value : Json} (h : validateTyped left value = .ok ()) :
    CodecKeeps readers formats value := by
  induction left generalizing value with
  | zero => cases h
  | succ left ih =>
    rw [validateTyped] at h
    split at h
    · cases h
    · rename_i kind inner hobject
      obtain rfl : value = wrapped kind inner := by
        cases value with
        | object entries => rw [Option.some.inj hobject, wrapped]
        | _ => cases hobject
      split at h
      · split at h
        · cases h
        · rename_i values hvalues
          obtain ⟨a, ha, hv⟩ := Option.bind_eq_some_iff.mp hvalues
          rw [onlyEntry_eq ha]
          cases a with
          | array values' =>
            obtain rfl := Option.some.inj hv
            exact keeps_array fun x hx => ih (forM_eq_ok.mp h x hx)
          | _ => cases hv
      · split at h
        · cases h
        · rename_i fields hfields
          obtain ⟨a, ha, hv⟩ := Option.bind_eq_some_iff.mp hfields
          rw [onlyEntry_eq ha]
          cases a with
          | object fields' =>
            obtain rfl := Option.some.inj hv
            apply keeps_map
            intro field hfield
            have hok := forM_eq_ok.mp h field hfield
            split at hok
            · cases hok
            · exact ih hok
          | _ => cases hv
      · split at h
        · rename_i hleaf
          exact keeps_leaf hleaf
        · cases h
    · cases h

/-- What the console admits, the codec reads and writes again as the same tree, but for texts
that say no time or no bytes. -/
theorem validator_admits (readers : TextReaders) (formats : TextFormats) (value : Json)
    (h : validateTypedValue value 0 = .ok ()) : CodecKeeps readers formats value :=
  validateTyped_keeps h

end Kept

theorem validator_admits_sample : CodecKeeps jsonReaders jsonFormats
    (wrapped "mapValue" (wrapped "fields" (.object
      [("at", wrapped "timestampValue" (.object
        [("nanos", .number (.posInt 5)), ("seconds", .string "+7")])),
      ("list", wrapped "arrayValue" (wrapped "values" (.array
        [wrapped "integerValue" (.string "007"),
          wrapped "doubleValue" (.number (.posInt 3))])))]))) :=
  validator_admits jsonReaders jsonFormats _ (by decide +kernel)

end FirebaseEmu.Ui
