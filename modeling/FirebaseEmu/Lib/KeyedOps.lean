import FirebaseEmu.Lib.Maps
import FirebaseEmu.Lib.Results

namespace FirebaseEmu.Lib
open Std

/-- Operations on a map that each name one key, and read and change nothing but the
entry under it. An operation is refused when it names no key or by its effect. -/
structure KeyedOps (κ α op ε ρ : Type) where
  key : op → Except ε κ
  effect : op → Option α → Except ε (ρ × Option α)

namespace KeyedOps

variable {κ α op ε ρ : Type} (k : KeyedOps κ α op ε ρ)

section Entry
variable [DecidableEq κ]

/-- What the operations in turn make of the one entry under `key`. -/
def entryAfter (key : κ) (entry : Option α) : List op → Option α
  | [] => entry
  | o :: ops =>
    match k.key o, k.effect o entry with
    | .ok j, .ok (_, changed) => if j = key then entryAfter key changed ops
        else entryAfter key entry ops
    | _, _ => entryAfter key entry ops

variable {k}

/-- An entry that no operation names stays as it was. -/
theorem entryAfter_unnamed {key : κ} {ops : List op} (h : ∀ o ∈ ops, k.key o ≠ .ok key)
    (entry : Option α) : k.entryAfter key entry ops = entry := by
  induction ops with
  | nil => rfl
  | cons o ops ih =>
    have ih := ih fun o' ho => h o' (List.mem_cons_of_mem _ ho)
    unfold entryAfter
    split
    · rename_i j _ _ hj _
      rw [if_neg (by rintro rfl; exact h o List.mem_cons_self hj), ih]
    · exact ih

/-- An entry that is there after the operations was there before or comes from one of them. -/
theorem entryAfter_source {key : κ} {entry : Option α} {ops : List op}
    (h : (k.entryAfter key entry ops).isSome) :
    entry.isSome ∨ ∃ o ∈ ops, k.key o = .ok key ∧
      ∃ before result changed, k.effect o before = .ok (result, some changed) := by
  induction ops generalizing entry with
  | nil => exact .inl h
  | cons o ops ih =>
    have htail : ∀ entry, (k.entryAfter key entry ops).isSome → entry.isSome ∨
        ∃ o' ∈ o :: ops, k.key o' = .ok key ∧
          ∃ before result changed, k.effect o' before = .ok (result, some changed) :=
      fun entry h => (ih h).imp_right fun ⟨o', ho, hrest⟩ =>
        ⟨o', List.mem_cons_of_mem _ ho, hrest⟩
    unfold entryAfter at h
    split at h
    · rename_i j result changed hj he
      split at h
      · rename_i hjk
        rcases htail _ h with hc | hrest
        · obtain ⟨a, rfl⟩ := Option.isSome_iff_exists.mp hc
          exact .inr ⟨o, List.mem_cons_self, hjk ▸ hj, entry, result, a, he⟩
        · exact .inr hrest
      · exact htail entry h
    · exact htail entry h

theorem entryAfter_last {key : κ} {entry changed : Option α} {o : op} {later : List op} {result : ρ}
    (hk : k.key o = .ok key) (he : k.effect o entry = .ok (result, changed))
    (hl : ∀ o' ∈ later, k.key o' ≠ .ok key) : k.entryAfter key entry (o :: later) = changed := by
  rw [entryAfter, hk, he]
  simp only [if_pos]
  exact entryAfter_unnamed hl changed

end Entry

section Run
variable [Ord κ] [TransOrd κ]

/-- One operation; a refused one leaves the map as it was. -/
def apply (m : ExtTreeMap κ α) (o : op) : Except ε ρ × ExtTreeMap κ α :=
  match k.key o with
  | .error e => (.error e, m)
  | .ok key =>
    match k.effect o m[key]? with
    | .ok (result, after) => (.ok result, put m key after)
    | .error e => (.error e, m)

/-- The map after the operations in turn, the refused ones passed over. -/
def after (m : ExtTreeMap κ α) (ops : List op) : ExtTreeMap κ α :=
  ops.foldl (fun m o => (k.apply m o).2) m

/-- What each operation answers, in turn. -/
def outcomes : ExtTreeMap κ α → List op → List (Except ε ρ)
  | _, [] => []
  | m, o :: ops => (k.apply m o).1 :: outcomes (k.apply m o).2 ops

/-- The operations that are not refused in their turn. -/
def accepted : ExtTreeMap κ α → List op → List op
  | _, [] => []
  | m, o :: ops =>
    if (k.apply m o).1.isOk then o :: accepted (k.apply m o).2 ops
    else accepted (k.apply m o).2 ops

variable {k}

@[simp] theorem after_nil (m : ExtTreeMap κ α) : k.after m [] = m := rfl

@[simp] theorem after_cons (m : ExtTreeMap κ α) (o : op) (ops : List op) :
    k.after m (o :: ops) = k.after (k.apply m o).2 ops := rfl

theorem after_append (m : ExtTreeMap κ α) (first second : List op) :
    k.after m (first ++ second) = k.after (k.after m first) second := by
  simp [after]

@[simp] theorem length_outcomes (m : ExtTreeMap κ α) (ops : List op) :
    (k.outcomes m ops).length = ops.length := by
  induction ops generalizing m with
  | nil => rfl
  | cons o ops ih => simp [outcomes, ih]

/-- The answer at a place is the answer of the operation there, on the map that the
operations before it leave. -/
theorem outcomes_get (m : ExtTreeMap κ α) (ops : List op) (i : Nat) :
    (k.outcomes m ops)[i]? = ops[i]?.map fun o => (k.apply (k.after m (ops.take i)) o).1 := by
  induction ops generalizing m i with
  | nil => rfl
  | cons o ops ih =>
    cases i with
    | zero => rfl
    | succ i => simpa [outcomes] using ih (k.apply m o).2 i

theorem outcomes_take (m : ExtTreeMap κ α) (ops : List op) (i : Nat) :
    k.outcomes m (ops.take i) = (k.outcomes m ops).take i := by
  induction ops generalizing m i with
  | nil => simp [outcomes]
  | cons o ops ih =>
    cases i with
    | zero => rfl
    | succ i => simp [outcomes, ih]

theorem apply_error {m : ExtTreeMap κ α} {o : op} {e : ε} (h : (k.apply m o).1 = .error e) :
    (k.apply m o).2 = m := by
  unfold apply at h ⊢
  split at h
  · rfl
  · split at h
    · cases h
    · rfl

theorem apply_of_refused {m : ExtTreeMap κ α} {o : op} (h : ¬ (k.apply m o).1.isOk) :
    (k.apply m o).2 = m := by
  cases ha : (k.apply m o).1 with
  | ok r => simp [ha, Except.isOk, Except.toBool] at h
  | error e => exact apply_error ha

/-- Refused operations leave no trace: the accepted ones alone lead to the same map. -/
theorem after_accepted (m : ExtTreeMap κ α) (ops : List op) :
    k.after m (k.accepted m ops) = k.after m ops := by
  induction ops generalizing m with
  | nil => rfl
  | cons o ops ih =>
    unfold accepted
    split
    · rw [after_cons, after_cons, ih]
    · rename_i hr
      rw [after_cons, apply_of_refused hr, ih]

/-- Run on their own, the accepted operations are all accepted, with the same answers. -/
theorem outcomes_accepted (m : ExtTreeMap κ α) (ops : List op) :
    k.outcomes m (k.accepted m ops) = (k.outcomes m ops).filter Except.isOk := by
  induction ops generalizing m with
  | nil => rfl
  | cons o ops ih =>
    unfold accepted
    split
    · rename_i ha
      rw [outcomes, outcomes, List.filter_cons_of_pos ha, ih]
    · rename_i hr
      rw [outcomes, List.filter_cons_of_neg hr, ← ih, apply_of_refused hr]

end Run

section Entries
variable {k} [Ord κ] [TransOrd κ] [LawfulEqOrd κ] [DecidableEq κ]

/-- One operation seen from an entry: the entry is read and changed by the operations
that name it alone. -/
theorem apply_getElem? (m : ExtTreeMap κ α) (o : op) (key : κ) :
    (k.apply m o).2[key]? =
      match k.key o, k.effect o m[key]? with
      | .ok j, .ok (_, changed) => if j = key then changed else m[key]?
      | _, _ => m[key]? := by
  unfold apply
  cases hk : k.key o with
  | error e => rfl
  | ok j =>
    by_cases hj : j = key
    · subst hj
      dsimp only
      cases he : k.effect o m[j]? with
      | error e => rfl
      | ok r => simp [getElem?_put]
    · dsimp only
      cases he : k.effect o m[j]? <;> cases he' : k.effect o m[key]? <;>
        simp [getElem?_put, hj]

theorem after_getElem? (m : ExtTreeMap κ α) (ops : List op) (key : κ) :
    (k.after m ops)[key]? = k.entryAfter key m[key]? ops := by
  induction ops generalizing m with
  | nil => rfl
  | cons o ops ih =>
    rw [after_cons, ih, apply_getElem?, entryAfter]
    split
    · split <;> rfl
    · rfl

theorem after_unnamed {key : κ} {ops : List op} (h : ∀ o ∈ ops, k.key o ≠ .ok key)
    (m : ExtTreeMap κ α) : (k.after m ops)[key]? = m[key]? := by
  rw [after_getElem?, entryAfter_unnamed h]

/-- Two maps that agree on what the operations name answer alike. -/
theorem outcomes_congr {ops : List op} {m m' : ExtTreeMap κ α}
    (h : ∀ o ∈ ops, ∀ key, k.key o = .ok key → m[key]? = m'[key]?) :
    k.outcomes m ops = k.outcomes m' ops := by
  induction ops generalizing m m' with
  | nil => rfl
  | cons o ops ih =>
    have hhead : (k.apply m o).1 = (k.apply m' o).1 := by
      unfold apply
      cases hk : k.key o with
      | error e => rfl
      | ok key =>
        dsimp only
        rw [h o List.mem_cons_self key hk]
        split <;> rfl
    have htail : k.outcomes (k.apply m o).2 ops = k.outcomes (k.apply m' o).2 ops := by
      apply ih
      intro o' ho key hk
      rw [apply_getElem?, apply_getElem?, h o' (List.mem_cons_of_mem _ ho) key hk]
    rw [outcomes, outcomes, hhead, htail]

/-- After operations that are all accepted, an entry is what the last operation that
names it leaves of it. -/
theorem after_last {m : ExtTreeMap κ α} {earlier later : List op} {o : op} {key : κ}
    (hall : ∀ outcome ∈ k.outcomes m (earlier ++ o :: later), outcome.isOk)
    (hk : k.key o = .ok key) (hl : ∀ o' ∈ later, k.key o' ≠ .ok key) :
    ∃ result, k.effect o (k.entryAfter key m[key]? earlier) =
      .ok (result, (k.after m (earlier ++ o :: later))[key]?) := by
  have hget := outcomes_get (k := k) m (earlier ++ o :: later) earlier.length
  simp only [List.getElem?_append_right, Nat.le_refl, Nat.sub_self, List.getElem?_cons_zero,
    Option.map_some, List.take_left] at hget
  have hok := hall _ (List.mem_of_getElem? hget)
  rw [apply, hk] at hok
  rw [← after_getElem?]
  dsimp only at hok
  cases he : k.effect o (k.after m earlier)[key]? with
  | error e => simp [he, Except.isOk, Except.toBool] at hok
  | ok outcome =>
    obtain ⟨result, changed⟩ := outcome
    refine ⟨result, ?_⟩
    rw [after_append, after_getElem?, entryAfter_last hk he hl]

end Entries

end KeyedOps

end FirebaseEmu.Lib
