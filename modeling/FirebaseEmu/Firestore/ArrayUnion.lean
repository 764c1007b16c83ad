import FirebaseEmu.Firestore.Equality
import FirebaseEmu.Firestore.Masks
import FirebaseEmu.Firestore.Writes

namespace FirebaseEmu.Firestore
open Lib

/-- The array at a path, or none where there is no array. -/
def arrayAt (fields : Fields) (path : List String) : List Value :=
  match nestedGet fields path with
  | some (.arrayValue values) => values
  | _ => []

/-- Some element is equal to the candidate. -/
def Covered (values : List Value) (candidate : Value) : Prop :=
  ∃ v ∈ values, transformValueEqual v candidate = true

theorem Covered.append {values : List Value} {candidate : Value} (h : Covered values candidate)
    (more : List Value) : Covered (values ++ more) candidate := by
  obtain ⟨v, hv, heq⟩ := h
  exact ⟨v, List.mem_append_left more hv, heq⟩

theorem appendMissing_cons (values : List Value) (candidate : Value) (candidates : List Value) :
    appendMissing values (candidate :: candidates) =
      appendMissing (if values.any (transformValueEqual · candidate) then values
        else values ++ [candidate]) candidates := rfl

theorem covered_iff (values : List Value) (candidate : Value) :
    values.any (transformValueEqual · candidate) = true ↔ Covered values candidate := by
  simp [Covered]

/-- A union with what is there already adds nothing. -/
theorem appendMissing_covered {values candidates : List Value}
    (h : ∀ candidate ∈ candidates, Covered values candidate) :
    appendMissing values candidates = values := by
  induction candidates with
  | nil => rfl
  | cons candidate candidates ih =>
    obtain ⟨hc, hcs⟩ := List.forall_mem_cons.mp h
    rw [appendMissing_cons, if_pos ((covered_iff values candidate).mpr hc), ih hcs]

/-- From the given length on, no element is equal to one before it. -/
def FreshFrom (length : Nat) (values : List Value) : Prop :=
  ∀ before x rest, values = before ++ x :: rest → length ≤ before.length →
    ∀ e ∈ before, transformValueEqual e x = false

/-- A union keeps what is there and adds listed elements, each unlike all before it. -/
theorem appendMissing_spec (values candidates : List Value) :
    ∃ appended, appendMissing values candidates = values ++ appended ∧ appended ⊆ candidates ∧
      FreshFrom values.length (values ++ appended) := by
  induction candidates generalizing values with
  | nil =>
    refine ⟨[], by simp [appendMissing], by simp, ?_⟩
    intro before x rest h hlen
    have hl := congrArg List.length h
    simp only [List.append_nil, List.length_append, List.length_cons] at hl
    omega
  | cons candidate candidates ih =>
    rw [appendMissing_cons]
    split
    · obtain ⟨appended, he, hsub, hfresh⟩ := ih values
      exact ⟨appended, he, fun x hx => List.mem_cons_of_mem _ (hsub hx), hfresh⟩
    · rename_i hnew
      rw [covered_iff] at hnew
      obtain ⟨appended, he, hsub, hfresh⟩ := ih (values ++ [candidate])
      refine ⟨candidate :: appended, by simpa using he, ?_, ?_⟩
      · exact List.cons_subset_cons candidate hsub
      · intro before x rest h hlen
        by_cases hfirst : before.length = values.length
        · obtain ⟨rfl, htail⟩ := List.append_inj h hfirst.symm
          obtain ⟨rfl, -⟩ := List.cons.inj htail
          intro e hm
          rw [← Bool.not_eq_true]
          exact fun heq => hnew ⟨e, hm, heq⟩
        · refine hfresh before x rest (by simpa using h) ?_
          rw [List.length_append, List.length_singleton]
          omega

/-- After a union every listed element is there. -/
theorem appendMissing_covers (values : List Value) {candidates : List Value}
    (hs : ∀ candidate ∈ candidates, candidate.KeySorted) :
    ∀ candidate ∈ candidates, Covered (appendMissing values candidates) candidate := by
  induction candidates generalizing values with
  | nil => simp
  | cons head candidates ih =>
    obtain ⟨hhead, hs⟩ := List.forall_mem_cons.mp hs
    rw [appendMissing_cons]
    generalize hv : (if values.any (transformValueEqual · head) then values
      else values ++ [head]) = start
    have hstart : Covered start head := by
      rw [← hv]
      split
      · rename_i h
        exact (covered_iff values head).mp h
      · exact ⟨head, by simp, transformEqual_refl head hhead⟩
    obtain ⟨appended, he, -⟩ := appendMissing_spec start candidates
    rw [List.forall_mem_cons]
    refine ⟨?_, ih start hs⟩
    rw [he]
    exact hstart.append appended

theorem appendMissing_keySorted {values candidates : List Value}
    (hv : ∀ v ∈ values, v.KeySorted) (hc : ∀ c ∈ candidates, c.KeySorted) :
    ∀ v ∈ appendMissing values candidates, v.KeySorted := by
  obtain ⟨appended, he, hsub, -⟩ := appendMissing_spec values candidates
  rw [he]
  intro v hm
  rcases List.mem_append.mp hm with hm | hm
  · exact hv v hm
  · exact hc v (hsub hm)

theorem arrayAt_keySorted {fields : Fields} (hf : fields.KeySorted) (path : List String) :
    ∀ v ∈ arrayAt fields path, v.KeySorted := by
  unfold arrayAt
  split
  · rename_i values hg
    exact (Value.keySorted_array values).mp (hf.nestedGet hg)
  · simp

/-- One `AppendMissingElements` transform of a field. -/
def unionTransform (field : String) (elements : List Value) : FieldTransform :=
  ⟨field, some (.appendMissingElements elements)⟩

theorem apply_union (requestTime : Timestamp) (document : Document) {field : String}
    {path : List String} (hp : fieldPath field = .ok path) (elements : List Value) :
    applyUpdateTransforms requestTime document [unionTransform field elements] [] =
      (.ok [.arrayValue (appendMissing (arrayAt document.fields path) elements)],
        { document with
          fields := nestedSet document.fields path
            (some (.arrayValue (appendMissing (arrayAt document.fields path) elements))) }) := by
  simp only [applyUpdateTransforms, applyTransform, unionTransform, checkTransform, hp,
    transformResult, bind, Except.bind, pure, Except.pure, List.nil_append]
  rfl

/-- An array union keeps the array that was there, adds what is missing of the listed
elements, changes nothing else, and the second time nothing at all. -/
theorem array_union (requestTime : Timestamp) {document : Document} (hd : document.KeySorted)
    {field : String} {path : List String} (hp : fieldPath field = .ok path)
    {elements : List Value} (he : ∀ element ∈ elements, element.KeySorted) :
    ∃ (values appended : List Value) (after : Document),
      applyUpdateTransforms requestTime document [unionTransform field elements] [] =
        (.ok [.arrayValue values], after) ∧
      nestedGet after.fields path = some (.arrayValue values) ∧
      values = arrayAt document.fields path ++ appended ∧ appended ⊆ elements ∧
      FreshFrom (arrayAt document.fields path).length values ∧
      (∀ element ∈ elements, Covered values element) ∧
      (∀ other, Unrelated path other →
        nestedGet after.fields other = nestedGet document.fields other) ∧
      applyUpdateTransforms requestTime after [unionTransform field elements] [] =
        (.ok [.arrayValue values], after) := by
  obtain ⟨appended, hvalues, hsub, hfresh⟩ :=
    appendMissing_spec (arrayAt document.fields path) elements
  have hcov := appendMissing_covers (arrayAt document.fields path) he
  have hsorted := appendMissing_keySorted (arrayAt_keySorted hd path) he
  have happly := apply_union requestTime document hp elements
  have hself := nestedGet_nestedSet_self document.fields (fieldPath_ok hp).1
    (some (.arrayValue (appendMissing (arrayAt document.fields path) elements)))
  rw [hvalues] at hcov hsorted happly hself
  refine ⟨_, appended, _, happly, hself, rfl, hsub, hfresh, hcov, ?_, ?_⟩
  · intro other h
    exact nestedGet_nestedSet_unrelated document.fields h _
  · have hat : arrayAt (nestedSet document.fields path
        (some (.arrayValue (arrayAt document.fields path ++ appended)))) path =
        arrayAt document.fields path ++ appended := by
      rw [arrayAt, hself]
    have hks : Fields.KeySorted (nestedSet document.fields path
        (some (.arrayValue (arrayAt document.fields path ++ appended)))) := by
      refine Fields.KeySorted.nestedSet hd path fun v hm => ?_
      rw [← Option.mem_some.mp hm, Value.keySorted_array]
      exact hsorted
    rw [apply_union requestTime _ hp, hat, appendMissing_covered hcov]
    congr 1
    rw [nestedSet_same hks hself]

/-- A document with one tag. -/
def taggedDocument : Document :=
  ⟨"projects/p/databases/d/documents/c/x", [("tags", .arrayValue [.integerValue 1])], none, none⟩

theorem array_union_tags :
    ∃ (values appended : List Value) (after : Document),
      applyUpdateTransforms ⟨1, 0⟩ taggedDocument
          [unionTransform "tags" [.integerValue 2, .integerValue 2]] [] =
        (.ok [.arrayValue values], after) ∧
      nestedGet after.fields ["tags"] = some (.arrayValue values) ∧
      values = [.integerValue 1] ++ appended ∧ FreshFrom 1 values ∧
      Covered values (.integerValue 2) := by
  have hd : taggedDocument.KeySorted := by
    simp [taggedDocument, Document.KeySorted, Fields.KeySorted, KeyOrdered, Value.KeySorted,
      Value.keySortedList]
  have hp : fieldPath "tags" = .ok ["tags"] := rfl
  have he : ∀ element ∈ [Value.integerValue 2, .integerValue 2], element.KeySorted := by
    simp [Value.KeySorted]
  obtain ⟨values, appended, after, happly, hget, hvalues, -, hfresh, hcov, -⟩ :=
    array_union ⟨1, 0⟩ hd hp he
  exact ⟨values, appended, after, happly, hget, hvalues, hfresh, hcov _ (by simp)⟩

end FirebaseEmu.Firestore
