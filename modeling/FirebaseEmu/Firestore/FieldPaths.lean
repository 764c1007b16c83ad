import FirebaseEmu.Firestore.Entries
import FirebaseEmu.Firestore.FieldSyntax

namespace FirebaseEmu.Firestore
open Lib

/-- One of the paths lies on the way to the other. -/
def Related (p q : List String) : Prop := p <+: q ∨ q <+: p

theorem Related.symm {p q : List String} (h : Related p q) : Related q p := Or.symm h

@[simp] theorem related_nil (p : List String) : Related [] p := .inl List.nil_prefix

@[simp] theorem related_nil_right (p : List String) : Related p [] := .inr List.nil_prefix

@[simp] theorem related_cons (a b : String) (p q : List String) :
    Related (a :: p) (b :: q) ↔ a = b ∧ Related p q := by
  simp only [Related, List.cons_prefix_cons]
  constructor
  · rintro (⟨rfl, h⟩ | ⟨rfl, h⟩)
    · exact ⟨rfl, .inl h⟩
    · exact ⟨rfl, .inr h⟩
  · rintro ⟨rfl, h | h⟩
    · exact .inl ⟨rfl, h⟩
    · exact .inr ⟨rfl, h⟩

/-- The entries of what stands under a name, if it is a map. -/
def mapEntry : Option Value → Option Fields
  | some (.mapValue inner) => some inner
  | _ => none

@[simp] theorem mapEntry_map (inner : Fields) :
    mapEntry (some (.mapValue inner)) = some inner := rfl

theorem eq_of_mapEntry {entry : Option Value} {inner : Fields} (h : mapEntry entry = some inner) :
    entry = some (.mapValue inner) := by
  unfold mapEntry at h
  split at h
  · rw [Option.some.inj h]
  · cases h

theorem nestedGet_cons (fields : Fields) (part next : String) (rest : List String) :
    nestedGet fields (part :: next :: rest) =
      (mapEntry (fields.lookup part)).bind (nestedGet · (next :: rest)) := by
  conv_lhs => unfold nestedGet
  split
  · rename_i inner hl
    rw [hl]
    rfl
  · rename_i hl
    cases hm : mapEntry (fields.lookup part) with
    | none => rfl
    | some inner => exact absurd (eq_of_mapEntry hm) (hl inner)

theorem nestedSet_cons (fields : Fields) (part next : String) (rest : List String)
    (value : Option Value) : nestedSet fields (part :: next :: rest) value =
      if value.isNone && (mapEntry (fields.lookup part)).isNone then fields
      else fields.insert part
        (.mapValue (nestedSet ((mapEntry (fields.lookup part)).getD []) (next :: rest) value)) := by
  conv_lhs => unfold nestedSet
  split
  · rename_i inner hl
    simp [hl]
  · rename_i hl
    cases hm : mapEntry (fields.lookup part) with
    | none => simp
    | some inner => exact absurd (eq_of_mapEntry hm) (hl inner)

theorem nestedGet_nil (path : List String) : nestedGet [] path = none := by
  cases path with
  | nil => rfl
  | cons part rest =>
    cases rest with
    | nil => rfl
    | cons next rest => rfl

/-- What stands at the head of a path once the path has been set. -/
def setEntry (old : Option Value) : List String → Option Value → Option Value
  | [], value => value
  | rest, value =>
    if value.isNone && (mapEntry old).isNone then old
    else some (.mapValue (nestedSet ((mapEntry old).getD []) rest value))

/-- Setting a path touches the entry at its head and no other. -/
theorem lookup_nestedSet (fields : Fields) (part : String) (rest : List String)
    (value : Option Value) (key : String) :
    (nestedSet fields (part :: rest) value).lookup key =
      if key = part then setEntry (fields.lookup part) rest value else fields.lookup key := by
  cases rest with
  | nil =>
    cases value with
    | none => exact Fields.lookup_remove fields part key
    | some value => exact Fields.lookup_insert fields part key value
  | cons next rest =>
    rw [nestedSet_cons, setEntry]
    · split
      · split
        · rename_i hk
          rw [hk]
        · rfl
      · exact Fields.lookup_insert fields part key _
    · simp

@[simp] theorem setEntry_nil (old value : Option Value) : setEntry old [] value = value := rfl

theorem setEntry_cons (old : Option Value) (next : String) (rest : List String)
    (value : Option Value) : setEntry old (next :: rest) value =
      if value.isNone && (mapEntry old).isNone then old
      else some (.mapValue (nestedSet ((mapEntry old).getD []) (next :: rest) value)) := by
  rw [setEntry]
  simp

/-- What a deletion leaves of no fields. -/
theorem nestedSet_nil_none (path : List String) : nestedSet [] path none = [] := by
  cases path with
  | nil => rfl
  | cons part rest =>
    cases rest with
    | nil => rfl
    | cons next rest => rfl

/-- The entries under a name after a path that goes through it has been set. -/
theorem mapEntry_setEntry (old : Option Value) (next : String) (rest : List String)
    (value : Option Value) :
    (mapEntry (setEntry old (next :: rest) value)).getD [] =
      nestedSet ((mapEntry old).getD []) (next :: rest) value := by
  rw [setEntry_cons]
  split
  · rename_i h
    simp only [Bool.and_eq_true, Option.isNone_iff_eq_none] at h
    rw [h.1, h.2]
    exact (nestedSet_nil_none _).symm
  · rfl

theorem mapEntry_setEntry_eq_none {old : Option Value} {next : String} {rest : List String}
    {value : Option Value} (h : mapEntry (setEntry old (next :: rest) value) = none) :
    value = none ∧ mapEntry old = none := by
  rw [setEntry_cons] at h
  split at h
  · rename_i hn
    simpa only [Bool.and_eq_true, Option.isNone_iff_eq_none] using hn
  · cases h

/-- Unless both are deletions under what is no map, two settings leave a map. -/
theorem setEntry_twice {old v w : Option Value} {a b : String} {p q : List String}
    (h : ¬ (v = none ∧ w = none ∧ mapEntry old = none)) :
    setEntry (setEntry old (a :: p) v) (b :: q) w = some (.mapValue
      (nestedSet (nestedSet ((mapEntry old).getD []) (a :: p) v) (b :: q) w)) := by
  rw [setEntry_cons, mapEntry_setEntry, if_neg]
  simp only [Bool.and_eq_true, Option.isNone_iff_eq_none]
  rintro ⟨hw, hn⟩
  obtain ⟨hv, ho⟩ := mapEntry_setEntry_eq_none hn
  exact h ⟨hv, hw, ho⟩

theorem nestedGet_entry (fields : Fields) (part next : String) (rest : List String) :
    nestedGet fields (part :: next :: rest) =
      nestedGet ((mapEntry (fields.lookup part)).getD []) (next :: rest) := by
  rw [nestedGet_cons]
  cases mapEntry (fields.lookup part) with
  | none => exact (nestedGet_nil _).symm
  | some inner => rfl

/-- A path that has been set reads as what it was set to. -/
theorem nestedGet_nestedSet_self (fields : Fields) {path : List String} (hp : path ≠ [])
    (value : Option Value) : nestedGet (nestedSet fields path value) path = value := by
  induction path generalizing fields with
  | nil => exact absurd rfl hp
  | cons part rest ih =>
    cases rest with
    | nil =>
      have hl := lookup_nestedSet fields part [] value part
      rw [if_pos rfl] at hl
      exact hl
    | cons next rest =>
      rw [nestedGet_entry, lookup_nestedSet, if_pos rfl, mapEntry_setEntry]
      exact ih _ (by simp)

/-- A path unrelated to the one set reads as before. -/
theorem nestedGet_nestedSet_unrelated (fields : Fields) {path other : List String}
    (h : ¬ Related path other) (value : Option Value) :
    nestedGet (nestedSet fields path value) other = nestedGet fields other := by
  induction path generalizing fields other with
  | nil => exact absurd (related_nil _) h
  | cons part rest ih =>
    cases other with
    | nil => exact absurd (related_nil_right _) h
    | cons key others =>
      by_cases hk : key = part
      · subst hk
        have hrest : ¬ Related rest others := fun hr => h ((related_cons _ _ _ _).mpr ⟨rfl, hr⟩)
        cases rest with
        | nil => exact absurd (related_nil _) hrest
        | cons next rest =>
          cases others with
          | nil => exact absurd (related_nil_right _) hrest
          | cons next' others =>
            rw [nestedGet_entry, lookup_nestedSet, if_pos rfl, mapEntry_setEntry, nestedGet_entry]
            exact ih _ hrest
      · have hl := lookup_nestedSet fields part rest value key
        rw [if_neg hk] at hl
        cases others with
        | nil => exact hl
        | cons next others => rw [nestedGet_entry, hl, nestedGet_entry]

namespace Fields.KeySorted

theorem mapEntry {fields : Fields} (h : fields.KeySorted) (part : String) :
    Fields.KeySorted ((mapEntry (fields.lookup part)).getD []) := by
  cases hm : Firestore.mapEntry (fields.lookup part) with
  | none => exact .nil
  | some inner => exact (Value.keySorted_map _).mp (h.of_lookup (eq_of_mapEntry hm))

theorem nestedSet {fields : Fields} (h : fields.KeySorted) (path : List String)
    {value : Option Value} (hv : ∀ v ∈ value, v.KeySorted) :
    (nestedSet fields path value).KeySorted := by
  induction path generalizing fields with
  | nil => exact h
  | cons part rest ih =>
    cases rest with
    | nil =>
      cases value with
      | none => exact h.remove part
      | some value => exact h.insert part (hv value rfl)
    | cons next rest =>
      rw [nestedSet_cons]
      split
      · exact h
      · exact h.insert part ((Value.keySorted_map _).mpr (ih (h.mapEntry part)))

theorem nestedGet {fields : Fields} (h : fields.KeySorted) {path : List String} {value : Value}
    (hg : nestedGet fields path = some value) : value.KeySorted := by
  induction path generalizing fields with
  | nil => cases hg
  | cons part rest ih =>
    cases rest with
    | nil => exact h.of_lookup hg
    | cons next rest =>
      rw [nestedGet_cons] at hg
      obtain ⟨inner, hm, hg⟩ := Option.bind_eq_some_iff.mp hg
      exact ih ((Value.keySorted_map _).mp (h.of_lookup (eq_of_mapEntry hm))) hg

end Fields.KeySorted

/-- Setting a path to what it holds changes nothing. -/
theorem nestedSet_same {fields : Fields} (hf : fields.KeySorted) {path : List String}
    {value : Value} (h : nestedGet fields path = some value) :
    nestedSet fields path (some value) = fields := by
  induction path generalizing fields with
  | nil => cases h
  | cons part rest ih =>
    have hv : ∀ v ∈ some value, v.KeySorted := by
      intro v hm
      rw [← Option.mem_some.mp hm]
      exact hf.nestedGet h
    apply (hf.nestedSet (part :: rest) hv).ext hf
    intro key
    rw [lookup_nestedSet]
    split
    · rename_i hk
      rw [hk]
      cases rest with
      | nil => exact h.symm
      | cons next rest =>
        rw [nestedGet_cons] at h
        obtain ⟨inner, hm, hg⟩ := Option.bind_eq_some_iff.mp h
        have hin : Fields.KeySorted inner := by
          have hentry := hf.mapEntry part
          rwa [hm] at hentry
        rw [setEntry_cons, hm, eq_of_mapEntry hm, Option.getD_some, ih hin hg]
        rfl
    · rfl

/-- Unrelated paths can be set in either order. -/
theorem nestedSet_comm {fields : Fields} (hf : fields.KeySorted) {p q : List String}
    (h : ¬ Related p q) {v w : Option Value} (hv : ∀ x ∈ v, x.KeySorted)
    (hw : ∀ x ∈ w, x.KeySorted) :
    nestedSet (nestedSet fields p v) q w = nestedSet (nestedSet fields q w) p v := by
  induction p generalizing fields q with
  | nil => exact absurd (related_nil _) h
  | cons a p ih =>
    cases q with
    | nil => exact absurd (related_nil_right _) h
    | cons b q =>
      apply ((hf.nestedSet (a :: p) hv).nestedSet (b :: q) hw).ext
        ((hf.nestedSet (b :: q) hw).nestedSet (a :: p) hv)
      intro key
      simp only [lookup_nestedSet]
      by_cases hab : a = b
      · subst hab
        have hpq : ¬ Related p q := fun hr => h ((related_cons _ _ _ _).mpr ⟨rfl, hr⟩)
        by_cases hk : key = a
        · simp only [if_pos hk, ↓reduceIte]
          cases p with
          | nil => exact absurd (related_nil _) hpq
          | cons c p =>
            cases q with
            | nil => exact absurd (related_nil_right _) hpq
            | cons d q =>
              by_cases hnone : v = none ∧ w = none ∧ mapEntry (fields.lookup a) = none
              · obtain ⟨rfl, rfl, hm⟩ := hnone
                simp [setEntry_cons, hm]
              · have hnone' : ¬ (w = none ∧ v = none ∧ mapEntry (fields.lookup a) = none) :=
                  fun hn => hnone ⟨hn.2.1, hn.1, hn.2.2⟩
                rw [setEntry_twice hnone, setEntry_twice hnone', ih (hf.mapEntry a) hpq]
        · simp only [if_neg hk]
      · by_cases hk : key = a
        · have hkb : key ≠ b := fun he => hab (hk.symm.trans he)
          simp only [if_pos hk, if_neg hkb, if_neg hab]
        · simp only [if_neg hk]
          split
          · rename_i hb
            rw [if_neg (fun he => hab he.symm)]
          · rfl

end FirebaseEmu.Firestore
