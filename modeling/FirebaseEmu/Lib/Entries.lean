import Mathlib.Data.List.Perm.Subperm
import Mathlib.Data.List.Forall2
import Mathlib.Data.List.Nodup
import Mathlib.Order.Lattice

namespace FirebaseEmu.Lib

variable {κ α β : Type} [LinearOrder κ]

theorem lookup_cons_eq [BEq κ] [LawfulBEq κ] (key other : κ) (x : α) (entries : List (κ × α)) :
    ((key, x) :: entries).lookup other = if other = key then some x else entries.lookup other := by
  rw [List.lookup_cons]
  by_cases h : other = key
  · simp [h]
  · simp [h, beq_false_of_ne h]

/-- Entries in strict key order, so with one entry for a key. -/
def KeyOrdered (entries : List (κ × α)) : Prop := entries.Pairwise fun a b => a.1 < b.1

namespace KeyOrdered

theorem cons_iff {entry : κ × α} {entries : List (κ × α)} :
    KeyOrdered (entry :: entries) ↔ (∀ e ∈ entries, entry.1 < e.1) ∧ KeyOrdered entries :=
  List.pairwise_cons

theorem keys_nodup {entries : List (κ × α)} (h : KeyOrdered entries) :
    (entries.map Prod.fst).Nodup := by
  rw [List.Nodup, List.pairwise_map]
  exact h.imp ne_of_lt

/-- Entries in order are told apart by nothing but what they hold. -/
theorem eq_of_perm {as bs : List (κ × α)} (ha : KeyOrdered as) (hb : KeyOrdered bs)
    (h : as.Perm bs) : as = bs :=
  h.eq_of_pairwise (fun _ _ _ _ hab hba => absurd hab (not_lt_of_gt hba)) ha hb

theorem keys_eq_of_subset {as : List (κ × α)} {bs : List (κ × β)} (ha : KeyOrdered as)
    (hb : KeyOrdered bs) (hlen : as.length = bs.length)
    (h : as.map Prod.fst ⊆ bs.map Prod.fst) : as.map Prod.fst = bs.map Prod.fst := by
  have hsub : (as.map Prod.fst).Subperm (bs.map Prod.fst) := ha.keys_nodup.subperm h
  have hperm := hsub.perm_of_length_le (by simp [hlen])
  have hsa : (as.map Prod.fst).Pairwise (· < ·) := List.pairwise_map.mpr ha
  have hsb : (bs.map Prod.fst).Pairwise (· < ·) := List.pairwise_map.mpr hb
  exact hperm.eq_of_pairwise (fun _ _ _ _ hab hba => absurd hab (not_lt_of_gt hba)) hsa hsb

variable [BEq κ] [LawfulBEq κ]

theorem lookup_iff {entries : List (κ × α)} (h : KeyOrdered entries) {k : κ} {x : α} :
    entries.lookup k = some x ↔ (k, x) ∈ entries := by
  induction entries with
  | nil => simp
  | cons entry entries ih =>
    obtain ⟨l, y⟩ := entry
    obtain ⟨hlt, h⟩ := cons_iff.mp h
    by_cases hk : k = l
    · subst hk
      have hnone : ∀ z, (k, z) ∉ entries := fun z hm => lt_irrefl k (hlt _ hm)
      simp [hnone, eq_comm]
    · have hb : (k == l) = false := by simp [hk]
      simp [List.lookup_cons, hb, hk, ih h]

/-- Entries in order are determined by what a lookup finds. -/
theorem ext {as bs : List (κ × α)} (ha : KeyOrdered as) (hb : KeyOrdered bs)
    (h : ∀ k, as.lookup k = bs.lookup k) : as = bs := by
  apply ha.eq_of_perm hb
  have hna : as.Nodup := List.Nodup.of_map Prod.fst ha.keys_nodup
  have hnb : bs.Nodup := List.Nodup.of_map Prod.fst hb.keys_nodup
  rw [List.perm_ext_iff_of_nodup hna hnb]
  rintro ⟨k, x⟩
  rw [← ha.lookup_iff, ← hb.lookup_iff, h]

/-- Two maps of one size agree at each key of the first exactly when their entries agree
in order. -/
theorem forall₂_iff {as : List (κ × α)} {bs : List (κ × β)} (ha : KeyOrdered as)
    (hb : KeyOrdered bs) (R : α → β → Prop) :
    (as.length = bs.length ∧ ∀ a ∈ as, ∃ y, bs.lookup a.1 = some y ∧ R a.2 y) ↔
      List.Forall₂ (fun a b => a.1 = b.1 ∧ R a.2 b.2) as bs := by
  constructor
  · rintro ⟨hlen, h⟩
    have hsub : as.map Prod.fst ⊆ bs.map Prod.fst := by
      intro k hk
      obtain ⟨a, hm, rfl⟩ := List.mem_map.mp hk
      obtain ⟨y, hy, -⟩ := h a hm
      exact List.mem_map.mpr ⟨(a.1, y), hb.lookup_iff.mp hy, rfl⟩
    have hkeys := keys_eq_of_subset ha hb hlen hsub
    clear hlen hsub
    induction as generalizing bs with
    | nil =>
      have hnil : bs = [] := by simpa using hkeys.symm
      rw [hnil]
      exact .nil
    | cons a as ih =>
      cases bs with
      | nil => simp at hkeys
      | cons b bs =>
        obtain ⟨hab, hkeys⟩ := List.cons.inj hkeys
        obtain ⟨hlt, ha⟩ := cons_iff.mp ha
        obtain ⟨-, hb⟩ := cons_iff.mp hb
        refine .cons ⟨hab, ?_⟩ (ih ha hb (fun e he => ?_) hkeys)
        · obtain ⟨y, hy, hr⟩ := h a List.mem_cons_self
          rw [hab, List.lookup_cons, beq_self_eq_true] at hy
          have hy : b.2 = y := Option.some.inj hy
          exact hy ▸ hr
        · obtain ⟨y, hy, hr⟩ := h e (List.mem_cons_of_mem _ he)
          have hne : (e.1 == b.1) = false := by
            rw [beq_eq_false_iff_ne, ← hab]
            exact ne_of_gt (hlt e he)
          rw [List.lookup_cons, hne] at hy
          exact ⟨y, hy, hr⟩
  · intro h
    refine ⟨h.length_eq, fun a hm => ?_⟩
    obtain ⟨b, hmb, hk, hr⟩ : ∃ b ∈ bs, a.1 = b.1 ∧ R a.2 b.2 := by
      clear ha hb
      induction h with
      | nil => simp at hm
      | cons hab _ ih =>
        rcases List.mem_cons.mp hm with rfl | hm
        · exact ⟨_, List.mem_cons_self, hab⟩
        · obtain ⟨b, hmb, hb⟩ := ih hm
          exact ⟨b, List.mem_cons_of_mem _ hmb, hb⟩
    exact ⟨b.2, hb.lookup_iff.mpr (hk ▸ hmb), hr⟩

end KeyOrdered

/-- `map.insert(key, value)`. -/
def insertKey (key : κ) (x : α) : List (κ × α) → List (κ × α)
  | [] => [(key, x)]
  | (k, y) :: entries =>
    if key < k then (key, x) :: (k, y) :: entries
    else if key = k then (key, x) :: entries
    else (k, y) :: insertKey key x entries

theorem mem_insertKey {entries : List (κ × α)} {key : κ} {x : α} {entry : κ × α}
    (h : entry ∈ insertKey key x entries) : entry = (key, x) ∨ entry ∈ entries := by
  induction entries with
  | nil => simpa [insertKey] using h
  | cons head entries ih =>
    obtain ⟨k, y⟩ := head
    unfold insertKey at h
    split at h
    · simpa using h
    · split at h
      · rcases List.mem_cons.mp h with he | hm
        · exact .inl he
        · exact .inr (List.mem_cons_of_mem _ hm)
      · rcases List.mem_cons.mp h with rfl | hm
        · exact .inr List.mem_cons_self
        · exact (ih hm).imp_right (List.mem_cons_of_mem _)

theorem lookup_insertKey [BEq κ] [LawfulBEq κ] (key other : κ) (x : α)
    (entries : List (κ × α)) :
    (insertKey key x entries).lookup other =
      if other = key then some x else entries.lookup other := by
  induction entries with
  | nil => simp [insertKey, lookup_cons_eq]
  | cons entry entries ih =>
    obtain ⟨k, y⟩ := entry
    unfold insertKey
    split
    · rw [lookup_cons_eq]
    · split
      · rename_i hk
        subst hk
        simp only [lookup_cons_eq]
        split <;> rfl
      · rename_i hk
        rw [lookup_cons_eq, lookup_cons_eq, ih]
        by_cases ho : other = k
        · rw [if_pos ho, if_pos ho, if_neg (ho ▸ Ne.symm hk)]
        · rw [if_neg ho, if_neg ho]

theorem KeyOrdered.insertKey {entries : List (κ × α)} (h : KeyOrdered entries) (key : κ) (x : α) :
    KeyOrdered (insertKey key x entries) := by
  induction entries with
  | nil => exact List.pairwise_singleton _ _
  | cons head entries ih =>
    obtain ⟨k, y⟩ := head
    obtain ⟨hlt, hs⟩ := KeyOrdered.cons_iff.mp h
    unfold Lib.insertKey
    split
    · rename_i hk
      refine KeyOrdered.cons_iff.mpr ⟨fun e he => ?_, h⟩
      rcases List.mem_cons.mp he with rfl | he
      · exact hk
      · exact lt_trans hk (hlt e he)
    · split
      · rename_i hk
        subst hk
        exact KeyOrdered.cons_iff.mpr ⟨hlt, hs⟩
      · rename_i hnlt hne
        have hk : k < key := lt_of_le_of_ne (not_lt.mp hnlt) (Ne.symm hne)
        refine KeyOrdered.cons_iff.mpr ⟨fun e he => ?_, ih hs⟩
        rcases mem_insertKey he with rfl | he
        · exact hk
        · exact hlt e he

theorem lookup_of_mem [BEq κ] [LawfulBEq κ] {entries : List (κ × α)}
    (h : (entries.map Prod.fst).Nodup) {key : κ} {x : α} (hm : (key, x) ∈ entries) :
    entries.lookup key = some x := by
  induction entries with
  | nil => cases hm
  | cons head entries ih =>
    obtain ⟨k, y⟩ := head
    obtain ⟨hk, hn⟩ := List.nodup_cons.mp h
    rw [lookup_cons_eq]
    rcases List.mem_cons.mp hm with he | hx
    · obtain ⟨rfl, rfl⟩ := Prod.mk.inj he
      rw [if_pos rfl]
    · have hne : key ≠ k := by
        rintro rfl
        exact hk (List.mem_map.mpr ⟨(key, x), hx, rfl⟩)
      rw [if_neg hne, ih hn hx]

end FirebaseEmu.Lib
