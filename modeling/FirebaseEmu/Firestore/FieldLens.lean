import FirebaseEmu.Firestore.FieldPaths

namespace FirebaseEmu.Firestore
open Lib

/-- A step into a value: to an entry of a map or to an element of an array. -/
inductive Place where
  | key (name : String)
  | element (index : Nat)

/-- What stands at a place of a value. -/
def Value.locate : Value → List Place → Option Value
  | value, [] => some value
  | .mapValue fields, .key name :: places => (fields.lookup name).bind (·.locate places)
  | .arrayValue values, .element index :: places => values[index]?.bind (·.locate places)
  | _, _ :: _ => none

@[simp] theorem Value.locate_nil (value : Value) : value.locate [] = some value := by
  cases value <;> rfl

@[simp] theorem Value.locate_key (fields : Fields) (name : String) (places : List Place) :
    (Value.mapValue fields).locate (.key name :: places) =
      (fields.lookup name).bind (·.locate places) := rfl

@[simp] theorem Value.locate_element (fields : Fields) (index : Nat) (places : List Place) :
    (Value.mapValue fields).locate (.element index :: places) = none := rfl

/-- Every place that is left after a deletion was there before. -/
theorem locate_nestedSet_none (fields : Fields) (path : List String) (places : List Place)
    (h : ((Value.mapValue (nestedSet fields path none)).locate places).isSome) :
    ((Value.mapValue fields).locate places).isSome := by
  induction path generalizing fields places with
  | nil => exact h
  | cons part rest ih =>
    cases places with
    | nil => simp
    | cons place places =>
      cases place with
      | element index => simp at h
      | key name =>
        rw [Value.locate_key, lookup_nestedSet] at h
        split at h
        · rename_i hname
          subst hname
          cases rest with
          | nil => simp at h
          | cons next rest =>
            rw [setEntry_cons] at h
            cases hm : mapEntry (fields.lookup name) with
            | none =>
              -- what is no map is left as it is
              simpa [hm] using h
            | some inner =>
              rw [Value.locate_key, eq_of_mapEntry hm]
              apply ih inner places
              simpa [hm] using h
        · exact h

/-- Nested access reads back what was set, finds nothing where it was deleted, and leaves every
unrelated path as it was; a deletion adds no key. -/
theorem nested_access_laws (fields : Fields) {path : List String} (hp : path ≠ [])
    (value : Value) :
    nestedGet (nestedSet fields path (some value)) path = some value ∧
    nestedGet (nestedSet fields path none) path = none ∧
    (∀ other, other ≠ [] → ¬ path <+: other → ¬ other <+: path → ∀ argument : Option Value,
      nestedGet (nestedSet fields path argument) other = nestedGet fields other) ∧
    ∀ places name,
      ((Value.mapValue (nestedSet fields path none)).locate (places ++ [.key name])).isSome →
        ((Value.mapValue fields).locate (places ++ [.key name])).isSome := by
  refine ⟨?_, ?_, ?_, ?_⟩
  · exact nestedGet_nestedSet_self fields hp (some value)
  · exact nestedGet_nestedSet_self fields hp none
  · intro other _ hbefore hbehind argument
    apply nestedGet_nestedSet_unrelated
    rintro (h | h)
    · exact hbefore h
    · exact hbehind h
  · intro places name h
    exact locate_nestedSet_none fields path _ h

/-- A number where the path goes through is replaced by a map, and kept by a deletion. -/
theorem nested_access_laws_sample :
    nestedGet (nestedSet [("a", .integerValue 1)] ["a", "b"] (some (.booleanValue true)))
      ["a", "b"] = some (.booleanValue true) ∧
    nestedGet (nestedSet [("a", .integerValue 1)] ["a", "b"] none) ["a", "b"] = none ∧
    (∀ other, other ≠ [] → ¬ ["a", "b"] <+: other → ¬ other <+: ["a", "b"] →
      ∀ argument : Option Value,
        nestedGet (nestedSet [("a", .integerValue 1)] ["a", "b"] argument) other =
          nestedGet [("a", .integerValue 1)] other) ∧
    ∀ places name,
      ((Value.mapValue (nestedSet [("a", .integerValue 1)] ["a", "b"] none)).locate
        (places ++ [.key name])).isSome →
        ((Value.mapValue [("a", .integerValue 1)]).locate (places ++ [.key name])).isSome :=
  nested_access_laws [("a", .integerValue 1)] (by simp) (.booleanValue true)

end FirebaseEmu.Firestore
