import FirebaseEmu.Lib.Maps
import Mathlib.Data.List.Nodup

namespace FirebaseEmu.Lib
open Std

/-- One entry of a log of edits: its key, and what is there after it. -/
structure Edit (κ α : Type) where
  key : κ
  after : Option α

/-- An edit that also says what was there before it. -/
structure Change (κ α : Type) extends Edit κ α where
  before : Option α

variable {κ α : Type} [Ord κ] [TransOrd κ] {R : Option α → Option α → Prop}

/-- The map after the edits in turn. -/
def replay (m : ExtTreeMap κ α) (edits : List (Edit κ α)) : ExtTreeMap κ α :=
  edits.foldl (fun m edit => put m edit.key edit.after) m

@[simp] theorem replay_nil (m : ExtTreeMap κ α) : replay m [] = m := rfl

@[simp] theorem replay_cons (m : ExtTreeMap κ α) (edit : Edit κ α) (edits : List (Edit κ α)) :
    replay m (edit :: edits) = replay (put m edit.key edit.after) edits := rfl

theorem replay_append (m : ExtTreeMap κ α) (edits more : List (Edit κ α)) :
    replay m (edits ++ more) = replay (replay m edits) more := by
  simp [replay]

/-- Every change finds, in the map the changes before it lead to, what it says was there. -/
def Chained (R : Option α → Option α → Prop) (m : ExtTreeMap κ α) :
    List (Change κ α) → Prop
  | [] => True
  | change :: changes =>
    R change.before m[change.key]? ∧ Chained R (put m change.key change.after) changes

theorem chained_append {m : ExtTreeMap κ α} {changes more : List (Change κ α)} :
    Chained R m (changes ++ more) ↔
      Chained R m changes ∧ Chained R (replay m (changes.map Change.toEdit)) more := by
  induction changes generalizing m with
  | nil => simp [Chained]
  | cons change changes ih => simp [Chained, ih, and_assoc]

/-- In a chained log each change is about what the replay of the log before it shows. -/
theorem Chained.split {m : ExtTreeMap κ α} {earlier later : List (Change κ α)}
    {change : Change κ α} (h : Chained R m (earlier ++ change :: later)) :
    R change.before (replay m (earlier.map Change.toEdit))[change.key]? :=
  (chained_append.mp h).2.1

section Diff
variable [LawfulEqOrd κ] [DecidableEq κ]

/-- Edits towards a target reach it, where what they pass over is there already. -/
theorem replay_reaches {γ : Type} {S : Option α → γ → Prop} {edits : List (Edit κ α)}
    (target : κ → γ) (hset : ∀ edit ∈ edits, S edit.after (target edit.key))
    {m : ExtTreeMap κ α} {key : κ}
    (hskip : (∀ edit ∈ edits, edit.key ≠ key) → S m[key]? (target key)) :
    S (replay m edits)[key]? (target key) := by
  induction edits generalizing m with
  | nil => exact hskip (by simp)
  | cons edit edits ih =>
    rw [replay_cons]
    refine ih (fun e he => hset e (List.mem_cons_of_mem _ he)) fun hrest => ?_
    rw [getElem?_put]
    by_cases hk : edit.key = key
    · rw [if_pos hk]
      exact hk ▸ hset edit List.mem_cons_self
    · rw [if_neg hk]
      exact hskip (List.forall_mem_cons.mpr ⟨hk, hrest⟩)

/-- Changes of different entries are chained when each finds its own in the map. -/
theorem chained_of_nodup {m : ExtTreeMap κ α} {changes : List (Change κ α)}
    (hnodup : (changes.map fun change => change.key).Nodup)
    (h : ∀ change ∈ changes, R change.before m[change.key]?) : Chained R m changes := by
  induction changes generalizing m with
  | nil => trivial
  | cons change changes ih =>
    rw [List.map_cons, List.nodup_cons] at hnodup
    refine ⟨h change List.mem_cons_self, ih hnodup.2 fun other ho => ?_⟩
    have hk : change.key ≠ other.key := fun he => hnodup.1 (he ▸ List.mem_map_of_mem ho)
    rw [getElem?_put, if_neg hk]
    exact h other (List.mem_cons_of_mem _ ho)

end Diff

end FirebaseEmu.Lib
