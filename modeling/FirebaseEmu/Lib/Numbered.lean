import FirebaseEmu.Lib.Entries
import Mathlib.Data.List.Range

namespace FirebaseEmu.Lib

/-- A log whose messages are numbered from one on and are kept until they are acknowledged. -/
structure Numbered (α : Type) where
  seq : Nat
  messages : List (Nat × α)

namespace Numbered

variable {α : Type}

def empty : Numbered α := ⟨0, []⟩

def push (q : Numbered α) (x : α) : Numbered α :=
  ⟨q.seq + 1, insertKey (q.seq + 1) x q.messages⟩

/-- The messages up to an acknowledged number are dropped. -/
def trim (q : Numbered α) (number : Nat) : Numbered α :=
  { q with messages := q.messages.filter fun message => number < message.1 }

/-- A history with its numbers. -/
def number (history : List α) : List (Nat × α) := (history.zipIdx 1).map Prod.swap

/-- The messages of a history above a number. -/
def above (floor : Nat) (history : List α) : List (Nat × α) :=
  (number history).filter fun message => floor < message.1

/-- The log has the history behind it, acknowledged up to a number. -/
structure Holds (history : List α) (acked : Nat) (q : Numbered α) : Prop where
  seq : q.seq = history.length
  within : acked ≤ history.length
  messages : q.messages = above acked history

/-- The messages are those of the history from one number to another, in order. -/
structure Delivers (history : List α) (floor top : Nat) (messages : List (Nat × α)) : Prop where
  numbers : messages.map Prod.fst = List.range' (floor + 1) (top - floor)
  contents : ∀ message ∈ messages, history[message.1 - 1]? = some message.2

theorem number_concat (history : List α) (x : α) :
    number (history ++ [x]) = number history ++ [(history.length + 1, x)] := by
  rw [number, List.zipIdx_append, List.map_append, Nat.add_comm 1]
  rfl

theorem keys_number (history : List α) :
    (number history).map Prod.fst = List.range' 1 history.length := by
  rw [number, List.map_map]
  exact List.zipIdx_map_snd 1 history

theorem lt_of_mem_number {history : List α} {message : Nat × α} (h : message ∈ number history) :
    1 ≤ message.1 ∧ message.1 ≤ history.length := by
  have hkey : message.1 ∈ (number history).map Prod.fst := List.mem_map_of_mem h
  rw [keys_number, List.mem_range'_1] at hkey
  omega

theorem self_mem_insertKey (key : Nat) (x : α) (entries : List (Nat × α)) :
    (key, x) ∈ insertKey key x entries := by
  induction entries with
  | nil => simp [insertKey]
  | cons entry entries ih =>
    obtain ⟨k, y⟩ := entry
    unfold insertKey
    split
    · simp
    · split
      · simp
      · exact List.mem_cons_of_mem _ ih

theorem mem_insertKey_of_ne {entries : List (Nat × α)} {entry : Nat × α} {key : Nat}
    (h : entry ∈ entries) (hne : entry.1 ≠ key) (x : α) : entry ∈ insertKey key x entries := by
  induction entries with
  | nil => cases h
  | cons head entries ih =>
    obtain ⟨k, y⟩ := head
    unfold insertKey
    split
    · exact List.mem_cons_of_mem _ h
    · split
      · rename_i hk
        rcases List.mem_cons.mp h with rfl | h
        · exact absurd hk.symm hne
        · exact List.mem_cons_of_mem _ h
      · rcases List.mem_cons.mp h with rfl | h
        · exact List.mem_cons_self
        · exact List.mem_cons_of_mem _ (ih h)

/-- A pushed message is kept with its number. -/
theorem mem_push_self (q : Numbered α) (x : α) : (q.seq + 1, x) ∈ (q.push x).messages :=
  self_mem_insertKey _ _ _

/-- So are those with a number that was given out before. -/
theorem mem_push_of_le {q : Numbered α} {entry : Nat × α} (h : entry ∈ q.messages)
    (hle : entry.1 ≤ q.seq) (x : α) : entry ∈ (q.push x).messages :=
  mem_insertKey_of_ne h (Nat.ne_of_lt (Nat.lt_succ_of_le hle)) x

/-- A number past all others is put at the end. -/
theorem insertKey_last {entries : List (Nat × α)} {key : Nat} (h : ∀ e ∈ entries, e.1 < key)
    (x : α) : insertKey key x entries = entries ++ [(key, x)] := by
  induction entries with
  | nil => rfl
  | cons entry entries ih =>
    obtain ⟨k, y⟩ := entry
    rw [List.forall_mem_cons] at h
    have hlt : k < key := h.1
    rw [insertKey, if_neg (Nat.not_lt_of_lt hlt), if_neg (Nat.ne_of_gt hlt), ih h.2]
    rfl

theorem Holds.empty : Holds ([] : List α) 0 (empty : Numbered α) := ⟨rfl, Nat.le_refl _, rfl⟩

theorem Holds.push {history : List α} {acked : Nat} {q : Numbered α} (h : Holds history acked q)
    (x : α) : Holds (history ++ [x]) acked (q.push x) := by
  have hacked := h.within
  refine ⟨?_, ?_, ?_⟩
  · rw [Numbered.push, h.seq, List.length_append, List.length_singleton]
  · rw [List.length_append]
    omega
  · have hlast : ∀ e ∈ above acked history, e.1 < history.length + 1 := by
      intro e he
      have := lt_of_mem_number (List.mem_filter.mp he).1
      omega
    have hnew : acked < history.length + 1 := by omega
    rw [Numbered.push, h.seq, h.messages, insertKey_last hlast, above, above, number_concat,
      List.filter_append, List.filter_singleton]
    simp [hnew]

theorem Holds.pushes {history : List α} {acked : Nat} {q : Numbered α} (h : Holds history acked q)
    (xs : List α) : Holds (history ++ xs) acked (xs.foldl Numbered.push q) := by
  induction xs generalizing history q with
  | nil => simpa using h
  | cons x xs ih =>
    have hnext := ih (h.push x)
    rwa [List.append_assoc, List.singleton_append] at hnext

theorem Holds.trim {history : List α} {acked floor : Nat} {q : Numbered α}
    (h : Holds history acked q) (hf : floor ≤ history.length) :
    Holds history (max acked floor) (q.trim floor) := by
  refine ⟨h.seq, max_le h.within hf, ?_⟩
  rw [Numbered.trim, h.messages, above, above, List.filter_filter]
  apply List.filter_congr
  intro message _
  rw [← Bool.decide_and, decide_eq_decide]
  omega

/-- What is above a number are all the messages from there on. -/
theorem above_delivers {history : List α} {floor : Nat} (h : floor ≤ history.length) :
    Delivers history floor history.length (above floor history) := by
  refine ⟨?_, ?_⟩
  · have hmap : (above floor history).map Prod.fst =
        ((number history).map Prod.fst).filter fun n => floor < n := by
      rw [above, List.filter_map]
      rfl
    have hcut : List.range' 1 history.length =
        List.range' 1 floor ++ List.range' (floor + 1) (history.length - floor) := by
      rw [Nat.add_comm floor 1, List.range'_append_1, Nat.add_sub_cancel' h]
    rw [hmap, keys_number, hcut, List.filter_append]
    have hlow : (List.range' 1 floor).filter (fun n => floor < n) = [] := by
      rw [List.filter_eq_nil_iff]
      intro n hn
      rw [List.mem_range'_1] at hn
      simp
      omega
    have hhigh : (List.range' (floor + 1) (history.length - floor)).filter (fun n => floor < n) =
        List.range' (floor + 1) (history.length - floor) := by
      rw [List.filter_eq_self]
      intro n hn
      rw [List.mem_range'_1] at hn
      simp
      omega
    rw [hlow, hhigh, List.nil_append]
  · intro message hm
    obtain ⟨⟨x, i⟩, hi, rfl⟩ := List.mem_map.mp (List.mem_filter.mp hm).1
    rw [List.mk_mem_zipIdx_iff_le_and_getElem?_sub] at hi
    exact hi.2

/-- A history that goes on says the same of the messages so far. -/
theorem Delivers.append {history : List α} {floor top : Nat} {messages : List (Nat × α)}
    (h : Delivers history floor top messages) (more : List α) :
    Delivers (history ++ more) floor top messages := by
  refine ⟨h.numbers, fun message hm => ?_⟩
  have hcontent := h.contents message hm
  obtain ⟨hlt, -⟩ := List.getElem?_eq_some_iff.mp hcontent
  rw [List.getElem?_append_left hlt]
  exact hcontent

theorem Holds.delivers {history : List α} {acked : Nat} {q : Numbered α}
    (h : Holds history acked q) : Delivers history acked q.seq q.messages := by
  rw [h.seq, h.messages]
  exact above_delivers h.within

end Numbered
end FirebaseEmu.Lib
