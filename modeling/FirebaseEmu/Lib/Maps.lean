import Mathlib.Algebra.Order.BigOperators.Group.List
import Mathlib.Algebra.Ring.Int.Defs
import Mathlib.Data.List.Perm.Subperm
import Std.Data.ExtTreeMap

namespace FirebaseEmu.Lib
open Std

/-- A sum of weights shrinks with the list it is taken over. -/
theorem sum_map_le_of_subset {ι : Type} {l l' : List ι} {f : ι → Int} (hf : ∀ a ∈ l, 0 ≤ f a)
    (hl : l'.Nodup) (h : l' ⊆ l) : (l'.map f).sum ≤ (l.map f).sum := by
  obtain ⟨l'', hperm, hsub⟩ := hl.subperm h
  rw [← (hperm.map f).sum_eq]
  refine (hsub.map f).sum_le_sum fun i hi => ?_
  obtain ⟨a, ha, rfl⟩ := List.mem_map.mp hi
  exact hf a ha

variable {α β : Type} [Ord α] [TransOrd α]

theorem mem_iff_exists {m : ExtTreeMap α β} {k : α} : k ∈ m ↔ ∃ v, m[k]? = some v := by
  rw [ExtTreeMap.mem_iff_isSome_getElem?, Option.isSome_iff_exists]

theorem mem_of_getElem? {m : ExtTreeMap α β} {k : α} {v : β} (h : m[k]? = some v) : k ∈ m :=
  mem_iff_exists.mpr ⟨v, h⟩

theorem values_eq_map (m : ExtTreeMap α β) : m.values = m.toList.map Prod.snd := by
  obtain ⟨⟨q⟩⟩ := m
  induction q using Quotient.ind with
  | _ t =>
    change t.inner.values = (DTreeMap.Internal.Impl.Const.toList t.inner).map Prod.snd
    rw [DTreeMap.Internal.Impl.values_eq_map_snd,
      DTreeMap.Internal.Impl.Const.toList_eq_toListModel_map, List.map_map]
    rfl

variable [LawfulEqOrd α]

/-- The map with the key bound to the value, or unbound. -/
def put (m : ExtTreeMap α β) (k : α) (v : Option β) : ExtTreeMap α β := m.alter k fun _ => v

theorem getElem?_put [DecidableEq α] (m : ExtTreeMap α β) (k j : α) (v : Option β) :
    (put m k v)[j]? = if k = j then v else m[j]? := by
  simp [put, ExtTreeMap.getElem?_alter]

theorem insert_eq_put (m : ExtTreeMap α β) (k : α) (v : β) : m.insert k v = put m k (some v) := by
  apply ExtTreeMap.ext_getElem?
  intro j
  simp [put, ExtTreeMap.getElem?_alter, ExtTreeMap.getElem?_insert]

theorem erase_eq_put (m : ExtTreeMap α β) (k : α) : m.erase k = put m k none := by
  apply ExtTreeMap.ext_getElem?
  intro j
  simp [put, ExtTreeMap.getElem?_alter, ExtTreeMap.getElem?_erase]

theorem getElem?_filterKeys (m : ExtTreeMap α β) (keep : α → Bool) (k : α) :
    (m.filter fun j _ => keep j)[k]? = if keep k = true then m[k]? else none := by
  rw [ExtTreeMap.getElem?_filter']
  cases m[k]? <;> cases keep k <;> simp [Option.filter_some]

theorem erase_eq_filter [DecidableEq α] (m : ExtTreeMap α β) (k : α) :
    m.erase k = m.filter fun j _ => j != k := by
  apply ExtTreeMap.ext_getElem?
  intro j
  rw [getElem?_filterKeys, ExtTreeMap.getElem?_erase]
  by_cases he : k = j
  · simp [he]
  · simp [he, Ne.symm he]

theorem mem_filter {m : ExtTreeMap α β} {keep : α → β → Bool} {k : α} :
    k ∈ m.filter keep ↔ ∃ v, m[k]? = some v ∧ keep k v = true := by
  rw [mem_iff_exists, ExtTreeMap.getElem?_filter']
  simp [Option.filter_eq_some_iff]

theorem size_filter_eq_zero {m : ExtTreeMap α β} {keep : α → β → Bool} :
    (m.filter keep).size = 0 ↔ ∀ k v, m[k]? = some v → keep k v = false := by
  rw [← ExtTreeMap.length_keys, List.length_eq_zero_iff, List.eq_nil_iff_forall_not_mem]
  simp only [ExtTreeMap.mem_keys, mem_filter, not_exists, not_and, Bool.not_eq_true]

/-- Inserts one after the other. -/
theorem getElem?_insertAll [DecidableEq α] (v : α → β) (keys : List α) (m : ExtTreeMap α β)
    (k : α) : (keys.foldl (fun m k => m.insert k (v k)) m)[k]? =
      if k ∈ keys then some (v k) else m[k]? := by
  induction keys generalizing m with
  | nil => simp
  | cons key keys ih =>
    rw [List.foldl_cons, ih, ExtTreeMap.getElem?_insert]
    simp only [LawfulEqOrd.compare_eq_iff_eq]
    by_cases hk : k ∈ keys
    · simp [hk]
    · by_cases he : key = k
      · simp [he]
      · simp [hk, he, Ne.symm he]

/-- The keys of a map are the elements of any list that names them without repetition. -/
theorem keys_perm {m : ExtTreeMap α β} {l : List α} (hl : l.Nodup) (h : ∀ k, k ∈ m ↔ k ∈ l) :
    m.keys.Perm l := by
  rw [List.perm_ext_iff_of_nodup ExtTreeMap.nodup_keys hl]
  intro k
  rw [ExtTreeMap.mem_keys]
  exact h k

section
variable {m m' : ExtTreeMap α Int}

theorem sum_values (m : ExtTreeMap α Int) :
    m.values.sum = (m.keys.map fun k => m[k]?.getD 0).sum := by
  rw [values_eq_map, ← ExtTreeMap.map_fst_toList_eq_keys, List.map_map]
  congr 1
  refine List.map_congr_left fun entry hm => ?_
  rw [Function.comp_apply, ExtTreeMap.mem_toList_iff_getElem?_eq_some.mp hm, Option.getD_some]

/-- Values that are left add up to no more. -/
theorem sum_values_le (h : ∀ (k : α) (v : Int), m'[k]? = some v → m[k]? = some v)
    (hn : ∀ (k : α) (v : Int), m[k]? = some v → 0 ≤ v) : m'.values.sum ≤ m.values.sum := by
  have hsub : m'.keys ⊆ m.keys := by
    intro k hk
    obtain ⟨v, hv⟩ := mem_iff_exists.mp (ExtTreeMap.mem_keys.mp hk)
    exact ExtTreeMap.mem_keys.mpr (mem_of_getElem? (h k v hv))
  have hsame : m'.keys.map (fun k => m'[k]?.getD 0) = m'.keys.map fun k => m[k]?.getD 0 := by
    refine List.map_congr_left fun k hk => ?_
    obtain ⟨v, hv⟩ := mem_iff_exists.mp (ExtTreeMap.mem_keys.mp hk)
    rw [hv, h k v hv]
  rw [sum_values, sum_values, hsame]
  refine sum_map_le_of_subset (fun k hk => ?_) ExtTreeMap.nodup_keys hsub
  obtain ⟨v, hv⟩ := mem_iff_exists.mp (ExtTreeMap.mem_keys.mp hk)
  rw [hv]
  exact hn k v hv

theorem sum_values_insert [DecidableEq α] (m : ExtTreeMap α Int) (k : α) (v : Int) :
    (m.insert k v).values.sum = v + (m.erase k).values.sum := by
  have hperm : (m.insert k v).keys.Perm (k :: (m.erase k).keys) := by
    refine keys_perm (List.nodup_cons.mpr ⟨?_, ExtTreeMap.nodup_keys⟩) fun j => ?_
    · simp
    · rw [ExtTreeMap.mem_insert, List.mem_cons, ExtTreeMap.mem_keys, ExtTreeMap.mem_erase]
      simp only [ne_eq, LawfulEqOrd.compare_eq_iff_eq]
      by_cases he : k = j
      · simp [he]
      · simp [he, Ne.symm he]
  rw [sum_values, (hperm.map _).sum_eq, List.map_cons, List.sum_cons, ExtTreeMap.getElem?_insert_self,
    Option.getD_some, sum_values]
  congr 2
  refine List.map_congr_left fun j hj => ?_
  rw [ExtTreeMap.mem_keys, ExtTreeMap.mem_erase] at hj
  rw [ExtTreeMap.getElem?_insert, ExtTreeMap.getElem?_erase, if_neg hj.1, if_neg hj.1]

end

end FirebaseEmu.Lib
