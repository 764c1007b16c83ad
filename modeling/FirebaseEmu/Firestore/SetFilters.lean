import FirebaseEmu.Firestore.Ordering
import FirebaseEmu.Firestore.Query

namespace FirebaseEmu.Firestore
open Lib Std

/-- The field operators that look for a value, by their enumeration numbers. -/
inductive SetOperator where
  | equal
  | notEqual
  | arrayContains
  | oneOf
  | arrayContainsAny
  | notIn

def SetOperator.number : SetOperator → Int
  | .equal => 5
  | .notEqual => 6
  | .arrayContains => 7
  | .oneOf => 8
  | .arrayContainsAny => 9
  | .notIn => 10

/-- The document passes the filter on the field. -/
def passes (doc : Document) (field : String) (op : SetOperator) (value : Value) : Prop :=
  filterMatches doc (.fieldFilter (some field) op.number (some value)) = .ok true

/-- The document passes `IS_NULL` on the field. -/
def isNull (doc : Document) (field : String) : Prop :=
  filterMatches doc (.unaryFilter 3 (some field)) = .ok true

instance (doc : Document) (field : String) (op : SetOperator) (value : Value) :
    Decidable (passes doc field op value) := by unfold passes; infer_instance

theorem contains_iff (values : List Value) (needle : Value) :
    contains (.arrayValue values) needle = true ↔ ∃ v ∈ values, v.compare needle = .eq := by
  simp [contains]

/-- Values that compare as equal are of one rank. -/
theorem valueRank_eq {a b : Value} (h : a.compare b = .eq) : valueRank a = valueRank b := by
  unfold Value.compare at h
  split at h
  · rename_i hrank
    exact LawfulEqOrd.eq_of_compare hrank
  · contradiction

theorem compare_eq_symm {a b : Value} : a.compare b = .eq ↔ b.compare a = .eq :=
  ⟨OrientedCmp.eq_symm, OrientedCmp.eq_symm⟩

section Present
variable {doc : Document} {field : String} {a : Value} (ha : fieldValue doc field = some a)
include ha

theorem passes_iff (op : SetOperator) (value : Value) :
    passes doc field op value ↔ fieldFilterMatches op.number a value = .ok true := by
  simp [passes, filterMatches, ha]

theorem passes_equal (value : Value) : passes doc field .equal value ↔ a.compare value = .eq := by
  rw [passes_iff ha]
  change Except.ok (a.compare value).isEq = .ok true ↔ _
  rw [Except.ok.injEq, Ordering.isEq_iff_eq_eq]

theorem passes_notEqual (value : Value) :
    passes doc field .notEqual value ↔ a.compare value ≠ .eq := by
  rw [passes_iff ha]
  change Except.ok (!(a.compare value).isEq) = .ok true ↔ _
  simp

theorem passes_arrayContains (value : Value) :
    passes doc field .arrayContains value ↔ contains a value = true := by
  rw [passes_iff ha]
  change Except.ok (contains a value) = .ok true ↔ _
  rw [Except.ok.injEq]

theorem passes_oneOf (values : List Value) :
    passes doc field .oneOf (.arrayValue values) ↔ ∃ v ∈ values, a.compare v = .eq := by
  rw [passes_iff ha]
  change Except.ok (contains (.arrayValue values) a) = .ok true ↔ _
  simp only [Except.ok.injEq, contains_iff, compare_eq_symm (a := a)]

theorem passes_arrayContainsAny (values : List Value) :
    passes doc field .arrayContainsAny (.arrayValue values) ↔
      ∃ v ∈ values, contains a v = true := by
  rw [passes_iff ha]
  cases a with
  | arrayValue elements =>
    change Except.ok (elements.any (contains (.arrayValue values))) = .ok true ↔ _
    simp only [Except.ok.injEq, List.any_eq_true, contains_iff]
    constructor
    · rintro ⟨e, he, v, hv, h⟩
      exact ⟨v, hv, e, he, compare_eq_symm.mp h⟩
    · rintro ⟨v, hv, e, he, h⟩
      exact ⟨e, he, v, hv, compare_eq_symm.mp h⟩
  | _ =>
    change Except.ok false = .ok true ↔ _
    simp [contains]

theorem isNull_iff : isNull doc field ↔ valueRank a = 0 := by
  simp [isNull, filterMatches, ha, unaryFilterMatches]

theorem passes_notIn {values : List Value} (hv : ∀ v ∈ values, valueRank v ≠ 0) :
    passes doc field .notIn (.arrayValue values) ↔
      valueRank a ≠ 0 ∧ ∀ v ∈ values, a.compare v ≠ .eq := by
  rw [passes_iff ha]
  have hnull : contains (.arrayValue values) (.nullValue 0) = false := by
    rw [← Bool.not_eq_true, contains_iff]
    rintro ⟨v, hm, h⟩
    exact hv v hm (valueRank_eq h)
  have hmem := contains_iff values a
  simp only [compare_eq_symm (b := a)] at hmem
  change Except.ok (valueRank a != 0 && !contains (.arrayValue values) (.nullValue 0) &&
    !contains (.arrayValue values) a) = .ok true ↔ _
  simp only [Except.ok.injEq, hnull, Bool.not_false, Bool.and_true, Bool.and_eq_true, bne_iff_ne,
    Bool.not_eq_true', ← Bool.not_eq_true, hmem]
  simp

end Present

/-- A filter on a field that is not there lets nothing through. -/
theorem passes_missing {doc : Document} {field : String} (h : fieldValue doc field = none)
    (op : SetOperator) (value : Value) : ¬ passes doc field op value := by
  simp [passes, filterMatches, h]

/-- The operators over a list agree with the operators over its elements. `NOT_IN` alone
also asks that the field is not null. -/
theorem set_filters_elementwise (doc : Document) (field : String) (values : List Value) :
    (passes doc field .oneOf (.arrayValue values) ↔ ∃ v ∈ values, passes doc field .equal v) ∧
    (passes doc field .arrayContainsAny (.arrayValue values) ↔
      ∃ v ∈ values, passes doc field .arrayContains v) ∧
    (values ≠ [] → (∀ v ∈ values, valueRank v ≠ 0) →
      (passes doc field .notIn (.arrayValue values) ↔
        ¬ isNull doc field ∧ ∀ v ∈ values, passes doc field .notEqual v)) := by
  cases ha : fieldValue doc field with
  | none =>
    have hno := passes_missing ha
    refine ⟨by simp [hno], by simp [hno], fun hne _ => ?_⟩
    obtain ⟨v, hv⟩ := List.exists_mem_of_ne_nil values hne
    constructor
    · exact fun h => absurd h (hno _ _)
    · exact fun h => absurd (h.2 v hv) (hno _ _)
  | some a =>
    simp only [passes_oneOf ha, passes_equal ha, passes_arrayContainsAny ha,
      passes_arrayContains ha, passes_notEqual ha, isNull_iff ha, true_and]
    exact fun _ hv => passes_notIn ha hv

/-- On a null field `NOT_EQUAL` is true of every listed value, and `NOT_IN` is false. -/
theorem notIn_differs_on_null :
    let doc : Document := ⟨"projects/p/databases/d/documents/c/x", [("a", .nullValue 0)], none, none⟩
    ¬ (passes doc "a" .notIn (.arrayValue [.integerValue 1]) ↔
      ∀ v ∈ [Value.integerValue 1], passes doc "a" .notEqual v) := by
  intro doc h
  have ha : fieldValue doc "a" = some (.nullValue 0) := rfl
  have hall : ∀ v ∈ [Value.integerValue 1], passes doc "a" .notEqual v := by
    intro v hv
    rw [List.mem_singleton.mp hv, passes_notEqual ha]
    decide
  have hin := (passes_notIn ha (by simp [valueRank])).mp (h.mpr hall)
  exact hin.1 rfl

end FirebaseEmu.Firestore
