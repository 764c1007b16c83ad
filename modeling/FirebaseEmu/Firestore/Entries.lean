import FirebaseEmu.Firestore.Fields
import FirebaseEmu.Lib.Entries
import Mathlib.Data.String.Basic

namespace FirebaseEmu.Firestore
open Lib

mutual

/-- Every map inside the value is what a `HashMap` can be read into: its entries in strict
key order. -/
def Value.KeySorted : Value → Prop
  | .arrayValue values => Value.keySortedList values
  | .mapValue fields => KeyOrdered fields ∧ Value.keySortedFields fields
  | _ => True

def Value.keySortedList : List Value → Prop
  | [] => True
  | value :: values => Value.KeySorted value ∧ Value.keySortedList values

def Value.keySortedFields : Fields → Prop
  | [] => True
  | (_, value) :: fields => Value.KeySorted value ∧ Value.keySortedFields fields

end

def Fields.KeySorted (fields : Fields) : Prop :=
  KeyOrdered fields ∧ ∀ entry ∈ fields, entry.2.KeySorted

def Document.KeySorted (document : Document) : Prop := Fields.KeySorted document.fields

theorem Value.keySortedList_iff (values : List Value) :
    Value.keySortedList values ↔ ∀ value ∈ values, value.KeySorted := by
  induction values with
  | nil => simp [keySortedList]
  | cons value values ih => simp [keySortedList, ih]

theorem Value.keySortedFields_iff (fields : Fields) :
    Value.keySortedFields fields ↔ ∀ entry ∈ fields, entry.2.KeySorted := by
  induction fields with
  | nil => simp [keySortedFields]
  | cons entry fields ih => simp [keySortedFields, ih]

@[simp] theorem Value.keySorted_array (values : List Value) :
    (Value.arrayValue values).KeySorted ↔ ∀ value ∈ values, value.KeySorted := by
  rw [KeySorted, keySortedList_iff]

@[simp] theorem Value.keySorted_map (fields : Fields) :
    (Value.mapValue fields).KeySorted ↔ Fields.KeySorted fields := by
  rw [KeySorted, keySortedFields_iff, Fields.KeySorted]

namespace Fields

theorem insert_eq (fields : Fields) (key : String) (value : Value) :
    fields.insert key value = insertKey key value fields := by
  induction fields with
  | nil => rfl
  | cons entry fields ih => simp only [insert, insertKey, ih]

theorem lookup_insert (fields : Fields) (key other : String) (value : Value) :
    (fields.insert key value).lookup other =
      if other = key then some value else fields.lookup other := by
  rw [insert_eq, lookup_insertKey]

theorem lookup_remove (fields : Fields) (key other : String) :
    (fields.remove key).lookup other = if other = key then none else fields.lookup other := by
  induction fields with
  | nil => simp [remove]
  | cons entry fields ih =>
    obtain ⟨k, v⟩ := entry
    unfold remove at ih ⊢
    rw [lookup_cons_eq]
    by_cases hk : k = key
    · subst hk
      rw [List.filter_cons_of_neg (by simp), ih]
      split <;> rfl
    · rw [List.filter_cons_of_pos (by simpa using hk), lookup_cons_eq, ih]
      by_cases h : other = k
      · rw [if_pos h, if_pos h, if_neg (h ▸ hk)]
      · rw [if_neg h, if_neg h]

theorem mem_insert {fields : Fields} {key : String} {value : Value} {entry : String × Value}
    (h : entry ∈ fields.insert key value) : entry = (key, value) ∨ entry ∈ fields :=
  mem_insertKey (insert_eq fields key value ▸ h)

namespace KeySorted

theorem nil : Fields.KeySorted [] := ⟨List.Pairwise.nil, by simp⟩

theorem insert {fields : Fields} (h : fields.KeySorted) (key : String) {value : Value}
    (hv : value.KeySorted) : (fields.insert key value).KeySorted := by
  refine ⟨insert_eq fields key value ▸ h.1.insertKey key value, fun entry hm => ?_⟩
  rcases mem_insert hm with rfl | hm
  · exact hv
  · exact h.2 entry hm

theorem remove {fields : Fields} (h : fields.KeySorted) (key : String) :
    (fields.remove key).KeySorted :=
  ⟨List.Pairwise.filter _ h.1, fun entry hm => h.2 entry (List.mem_filter.mp hm).1⟩

theorem of_lookup {fields : Fields} (h : fields.KeySorted) {key : String} {value : Value}
    (hl : fields.lookup key = some value) : value.KeySorted :=
  h.2 _ (h.1.lookup_iff.mp hl)

theorem ext {as bs : Fields} (ha : as.KeySorted) (hb : bs.KeySorted)
    (h : ∀ key, as.lookup key = bs.lookup key) : as = bs := ha.1.ext hb.1 h

end KeySorted
end Fields
end FirebaseEmu.Firestore
