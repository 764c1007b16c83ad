namespace FirebaseEmu.Lib
open Std

/-- Comparisons of `a` with `b`, `b` with `c` and `a` with `c` as a transitive order has
them. -/
structure Chain (ab bc ac : Ordering) : Prop where
  lt_left : ab = .lt → bc ≠ .gt → ac = .lt
  lt_right : ab ≠ .gt → bc = .lt → ac = .lt
  eq : ab = .eq → bc = .eq → ac = .eq

theorem Chain.of_trans {α : Type} {cmp : α → α → Ordering} [TransCmp cmp] (a b c : α) :
    Chain (cmp a b) (cmp b c) (cmp a c) where
  lt_left hab hbc := TransCmp.lt_of_lt_of_isLE hab (Ordering.isLE_iff_ne_gt.mpr hbc)
  lt_right hab hbc := TransCmp.lt_of_isLE_of_lt (Ordering.isLE_iff_ne_gt.mpr hab) hbc
  eq := TransCmp.eq_trans

/-- Only where the first comparisons tie do the second ones matter. -/
theorem Chain.and_then {ab bc ac ab' bc' ac' : Ordering} (h : Chain ab bc ac)
    (h' : ab = .eq → bc = .eq → Chain ab' bc' ac') :
    Chain (ab.then ab') (bc.then bc') (ac.then ac') := by
  obtain ⟨hl, hr, he⟩ := h
  cases ab <;> cases bc
  case eq.eq =>
    rw [he rfl rfl]
    exact h' rfl rfl
  case lt.lt | lt.eq =>
    rw [hl rfl (by simp)]
    exact ⟨by simp, by simp, by simp⟩
  case eq.lt =>
    rw [hr (by simp) rfl]
    exact ⟨by simp, by simp, by simp⟩
  all_goals exact ⟨by simp, by simp, by simp⟩

theorem transCmp_of_chain {α : Type} {cmp : α → α → Ordering}
    (swap : ∀ a b, cmp a b = (cmp b a).swap)
    (chain : ∀ a b c, Chain (cmp a b) (cmp b c) (cmp a c)) : TransCmp cmp where
  eq_swap := swap _ _
  isLE_trans {a b c} hab hbc := by
    obtain ⟨hl, hr, he⟩ := chain a b c
    cases hx : cmp a b with
    | gt => rw [hx] at hab; cases hab
    | lt => rw [hl hx (Ordering.isLE_iff_ne_gt.mp hbc)]; rfl
    | eq =>
      cases hy : cmp b c with
      | gt => rw [hy] at hbc; cases hbc
      | lt => rw [hr (Ordering.isLE_iff_ne_gt.mp hab) hy]; rfl
      | eq => rw [he hx hy]; rfl

/-- A comparison read through a map into ordered keys. -/
theorem transCmp_of_key {α κ : Type} {cmp : α → α → Ordering} (cmpKey : κ → κ → Ordering)
    [TransCmp cmpKey] (key : α → κ) (h : ∀ a b, cmp a b = cmpKey (key a) (key b)) :
    TransCmp cmp :=
  transCmp_of_chain (fun a b => by rw [h, h]; exact OrientedCmp.eq_swap)
    fun a b c => by rw [h, h, h]; exact Chain.of_trans _ _ _

/-- Finitely branching trees, compared at the root first and then child by child. -/
inductive KeyTree (α : Type) where
  | node (label : α) (children : List (KeyTree α))

namespace KeyTree
variable {α : Type} (cmp : α → α → Ordering)

mutual

def compare : KeyTree α → KeyTree α → Ordering
  | .node a as, .node b bs => (cmp a b).then (compareList as bs)

def compareList : List (KeyTree α) → List (KeyTree α) → Ordering
  | [], [] => .eq
  | [], _ :: _ => .lt
  | _ :: _, [] => .gt
  | a :: as, b :: bs => (compare a b).then (compareList as bs)

end

@[simp] theorem compare_leaf (a b : α) : compare cmp (.node a []) (.node b []) = cmp a b := by
  simp [compare, compareList]

mutual

theorem compare_swap [OrientedCmp cmp] (a b : KeyTree α) :
    compare cmp a b = (compare cmp b a).swap := by
  obtain ⟨a, as⟩ := a
  obtain ⟨b, bs⟩ := b
  rw [compare, compare, Ordering.swap_then, ← OrientedCmp.eq_swap, ← compareList_swap as bs]

theorem compareList_swap [OrientedCmp cmp] (as bs : List (KeyTree α)) :
    compareList cmp as bs = (compareList cmp bs as).swap := by
  cases as <;> cases bs
  case cons.cons a as b bs =>
    rw [compareList, compareList, Ordering.swap_then, ← compare_swap a b, ← compareList_swap as bs]
  all_goals rfl

end

mutual

theorem compare_chain [TransCmp cmp] (a b c : KeyTree α) :
    Chain (compare cmp a b) (compare cmp b c) (compare cmp a c) := by
  obtain ⟨a, as⟩ := a
  obtain ⟨b, bs⟩ := b
  obtain ⟨c, cs⟩ := c
  simp only [compare]
  exact (Chain.of_trans a b c).and_then fun _ _ => compareList_chain as bs cs

theorem compareList_chain [TransCmp cmp] (as bs cs : List (KeyTree α)) :
    Chain (compareList cmp as bs) (compareList cmp bs cs) (compareList cmp as cs) := by
  cases as <;> cases bs <;> cases cs
  case cons.cons.cons a as b bs c cs =>
    simp only [compareList]
    exact (compare_chain a b c).and_then fun _ _ => compareList_chain as bs cs
  all_goals exact ⟨by simp [compareList], by simp [compareList], by simp [compareList]⟩

end

instance [TransCmp cmp] : TransCmp (compare cmp) :=
  transCmp_of_chain (compare_swap cmp) (compare_chain cmp)

end KeyTree
end FirebaseEmu.Lib
