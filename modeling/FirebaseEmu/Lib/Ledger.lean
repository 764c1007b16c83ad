import FirebaseEmu.Lib.Board

namespace FirebaseEmu.Lib

/-- The leases by reader and name that last, whether or not their items are left. -/
abbrev Ledger (ρ ν τ : Type) := ρ → ν → Option (Lease τ)

variable {ρ ν τ π : Type}

namespace Lease
variable {tokens : List τ} {old : Option (Lease τ)} {lease : Lease τ}

theorem free_some {now : Int} :
    free now old = some lease ↔ old = some lease ∧ now < lease.deadline := by
  simp [free, Option.filter_eq_some_iff]

variable [DecidableEq τ]

theorem close_some : close tokens old = some lease ↔ old = some lease ∧ lease.token ∉ tokens := by
  simp [close, Option.filter_eq_some_iff]

/-- A lease is as it was, or it is one of those extended and keeps its token. -/
theorem extend_cases {deadline : Int} (h : extend tokens deadline old = some lease) :
    old = some lease ∨ ∃ before, old = some before ∧ before.token = lease.token ∧
      lease.token ∈ tokens ∧ lease.deadline = deadline := by
  obtain ⟨before, ho, rfl⟩ := Option.map_eq_some_iff.mp h
  split
  · rename_i hm
    exact .inr ⟨before, ho, rfl, hm, rfl⟩
  · exact .inl ho

theorem close_unnamed (h : ∀ lease, old = some lease → lease.token ∉ tokens) :
    close tokens old = old := by
  cases old with
  | none => rfl
  | some lease => exact if_pos (decide_eq_true (h lease rfl))

theorem extend_unnamed {deadline : Int} (h : ∀ lease, old = some lease → lease.token ∉ tokens) :
    extend tokens deadline old = old := by
  cases old with
  | none => rfl
  | some lease => exact congrArg some (if_neg (h lease rfl))

end Lease

theorem Held.under_unnamed [DecidableEq τ] {tokens : List τ} {held : Held τ π}
    (h : ∀ lease, held.lease = some lease → lease.token ∉ tokens) : held.under tokens = false := by
  unfold under
  cases hl : held.lease with
  | none => rfl
  | some lease => simpa using h lease hl

namespace Ledger
variable [DecidableEq ρ]

def empty : Ledger ρ ν τ := fun _ _ => none

/-- The leases of one reader changed. -/
def onReader (reader : ρ) (f : Option (Lease τ) → Option (Lease τ)) (ledger : Ledger ρ ν τ) :
    Ledger ρ ν τ :=
  fun r n => if r = reader then f (ledger r n) else ledger r n

def issue [DecidableEq ν] (reader : ρ) (deadline : Int) (given : ν × τ) (ledger : Ledger ρ ν τ) :
    Ledger ρ ν τ :=
  fun r n => if r = reader ∧ n = given.1 then some ⟨given.2, deadline⟩ else ledger r n

/-- The leases issued one after the other. -/
def issues [DecidableEq ν] (reader : ρ) (deadline : Int) (given : List (ν × τ))
    (ledger : Ledger ρ ν τ) : Ledger ρ ν τ :=
  given.foldl (fun ledger entry => ledger.issue reader deadline entry) ledger

variable [DecidableEq ν] {ledger : Ledger ρ ν τ} {reader r : ρ} {n : ν} {lease : Lease τ}

/-- A lease is one of those issued, or it was there and its name got none. -/
theorem issues_some {deadline : Int} {given : List (ν × τ)}
    (h : ledger.issues reader deadline given r n = some lease) :
    (r = reader ∧ (n, lease.token) ∈ given) ∨
      ledger r n = some lease ∧ (r = reader → n ∉ given.map Prod.fst) := by
  induction given generalizing ledger with
  | nil => exact .inr ⟨h, fun _ => List.not_mem_nil⟩
  | cons entry given ih =>
    rcases ih h with ⟨hr, hg⟩ | ⟨hl, hn⟩
    · exact .inl ⟨hr, List.mem_cons_of_mem _ hg⟩
    · dsimp only [issue] at hl
      split at hl
      · rename_i he
        obtain rfl := Option.some.inj hl
        refine .inl ⟨he.1, ?_⟩
        rw [he.2]
        exact List.mem_cons_self
      · rename_i he
        refine .inr ⟨hl, fun hr => ?_⟩
        rw [List.map_cons, List.mem_cons, not_or]
        exact ⟨fun hn' => he ⟨hr, hn'⟩, hn hr⟩

end Ledger

namespace Board
variable {ledger : Ledger ρ ν τ} {board : Board ρ ν τ π} {reader : ρ}

/-- The items on the board are under the leases of the ledger. -/
def Agrees (board : Board ρ ν τ π) (ledger : Ledger ρ ν τ) : Prop :=
  ∀ (r : ρ) (n : ν) (held : Held τ π), board r n = some held → held.lease = ledger r n

theorem Agrees.sweep (h : board.Agrees ledger) (now : Int) : (board.sweep now).Agrees ledger :=
  fun r n held hb => h r n held (sweep_some.mp hb).1

/-- New items have no lease yet. -/
theorem Agrees.posts [DecidableEq ν] (h : board.Agrees ledger) {waits : ρ → Bool} {expiry : Int}
    {items : List (ν × π)} (hn : ∀ item ∈ items, ∀ r, ledger r item.1 = none) :
    (board.posts waits expiry items).Agrees ledger := by
  unfold Board.posts
  induction items generalizing board with
  | nil => exact h
  | cons item items ih =>
    rw [List.forall_mem_cons] at hn
    refine ih (fun r n held hb => ?_) hn.2
    dsimp only [Board.post] at hb
    split at hb
    · rename_i hp
      obtain rfl := Option.some.inj hb
      rw [hp.1, hn.1]
    · exact h r n held hb

variable [DecidableEq ρ]

theorem Agrees.onLeases (h : board.Agrees ledger)
    (f : Option (Lease τ) → Option (Lease τ)) :
    (board.onLeases reader f).Agrees (ledger.onReader reader f) := by
  intro r n held hb
  obtain ⟨old, ho, rfl⟩ := onLeases_some.mp hb
  unfold Ledger.onReader
  split
  · rw [← h r n old ho]
    rfl
  · exact h r n old ho

theorem Agrees.drop (h : board.Agrees ledger) : (board.drop reader).Agrees ledger := by
  intro r n held hb
  unfold Board.drop Board.onReader at hb
  split at hb
  · cases hr : board r n <;> rw [hr] at hb <;> cases hb
  · exact h r n held hb

theorem Agrees.take [DecidableEq τ] (h : board.Agrees ledger) (tokens : List τ) :
    (board.take reader tokens).Agrees (ledger.onReader reader (Lease.close tokens)) := by
  intro r n held hb
  unfold Board.take Board.onReader at hb
  unfold Ledger.onReader
  split at hb
  · rename_i hr
    rw [if_pos hr]
    obtain ⟨old, ho, hu⟩ := Option.bind_eq_some_iff.mp hb
    split at hu
    · cases hu
    · rename_i hunder
      obtain rfl := Option.some.inj hu
      rw [← h r n old ho, Held.close_of_not_under (Bool.eq_false_iff.mpr hunder)]
  · rename_i hr
    rw [if_neg hr]
    exact h r n held hb

variable [DecidableEq ν]

theorem Agrees.grants (h : board.Agrees ledger) (deadline : Int) (given : List (ν × τ)) :
    (board.grants reader deadline given).Agrees (ledger.issues reader deadline given) := by
  unfold Board.grants Ledger.issues
  induction given generalizing board ledger with
  | nil => exact h
  | cons entry given ih =>
    refine ih fun r n held hb => ?_
    dsimp only [Board.grant] at hb
    dsimp only [Ledger.issue]
    split at hb
    · rename_i hg
      obtain ⟨old, -, rfl⟩ := Option.map_eq_some_iff.mp hb
      rw [if_pos hg]
      rfl
    · rename_i hg
      rw [if_neg hg]
      exact h r n held hb

end Board
end FirebaseEmu.Lib
