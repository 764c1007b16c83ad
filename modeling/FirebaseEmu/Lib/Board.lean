namespace FirebaseEmu.Lib

/-- A hold on an item: the token it goes by and the time it ends. -/
structure Lease (τ : Type) where
  token : τ
  deadline : Int
  deriving DecidableEq

/-- An item that waits for its reader. -/
structure Held (τ π : Type) where
  payload : π
  expiry : Int
  attempts : Int
  lease : Option (Lease τ)
  deriving DecidableEq

/-- The items by reader and name. -/
abbrev Board (ρ ν τ π : Type) := ρ → ν → Option (Held τ π)

variable {ρ ν τ π : Type}

namespace Lease
variable [DecidableEq τ]

/-- The lease, unless it has run out. -/
def free (now : Int) (lease : Option (Lease τ)) : Option (Lease τ) :=
  lease.filter fun lease => decide (now < lease.deadline)

/-- The lease, unless it is named. -/
def close (tokens : List τ) (lease : Option (Lease τ)) : Option (Lease τ) :=
  lease.filter fun lease => decide (lease.token ∉ tokens)

/-- The lease, with another deadline if it is named. -/
def extend (tokens : List τ) (deadline : Int) (lease : Option (Lease τ)) : Option (Lease τ) :=
  lease.map fun lease => if lease.token ∈ tokens then { lease with deadline } else lease

end Lease

namespace Held
variable [DecidableEq τ]

def setLease (held : Held τ π) (lease : Option (Lease τ)) : Held τ π := { held with lease }

def grant (token : τ) (deadline : Int) (held : Held τ π) : Held τ π :=
  { held with lease := some ⟨token, deadline⟩, attempts := held.attempts + 1 }

/-- The item is under one of the leases. -/
def under (tokens : List τ) (held : Held τ π) : Bool :=
  held.lease.any fun lease => decide (lease.token ∈ tokens)

/-- What no lease changes. -/
def content (held : Held τ π) : π × Int := (held.payload, held.expiry)

/-- The item has not expired and is under no lease that lasts. -/
def ready (now : Int) (held : Held τ π) : Bool :=
  decide (now < held.expiry) && held.lease.all fun lease => decide (lease.deadline ≤ now)

theorem close_of_not_under {tokens : List τ} {held : Held τ π} (h : held.under tokens = false) :
    Lease.close tokens held.lease = held.lease := by
  unfold under at h
  unfold Lease.close
  cases hl : held.lease with
  | none => rfl
  | some lease => simpa [hl, Option.filter] using h

end Held

namespace Board

section
variable [DecidableEq ρ] [DecidableEq ν] [DecidableEq τ]

/-- The items of one reader changed. -/
def onReader (reader : ρ) (f : Held τ π → Option (Held τ π)) (board : Board ρ ν τ π) :
    Board ρ ν τ π :=
  fun r n => if r = reader then (board r n).bind f else board r n

/-- The leases of one reader changed. -/
def onLeases (reader : ρ) (f : Option (Lease τ) → Option (Lease τ)) :
    Board ρ ν τ π → Board ρ ν τ π :=
  onReader reader fun held => some (held.setLease (f held.lease))

/-- The items that have not expired. -/
def sweep (now : Int) (board : Board ρ ν τ π) : Board ρ ν τ π :=
  fun r n => (board r n).filter fun held => decide (now < held.expiry)

def free (reader : ρ) (now : Int) : Board ρ ν τ π → Board ρ ν τ π :=
  onLeases reader (Lease.free now)

/-- The items under the leases named are done with. -/
def take (reader : ρ) (tokens : List τ) : Board ρ ν τ π → Board ρ ν τ π :=
  onReader reader fun held => if held.under tokens then none else some held

def giveBack (reader : ρ) (tokens : List τ) : Board ρ ν τ π → Board ρ ν τ π :=
  onLeases reader (Lease.close tokens)

def extend (reader : ρ) (tokens : List τ) (deadline : Int) : Board ρ ν τ π → Board ρ ν τ π :=
  onLeases reader (Lease.extend tokens deadline)

def drop (reader : ρ) : Board ρ ν τ π → Board ρ ν τ π := onReader reader fun _ => none

/-- A new item for each of the readers that wait for it. -/
def post (waits : ρ → Bool) (expiry : Int) (item : ν × π) (board : Board ρ ν τ π) :
    Board ρ ν τ π :=
  fun r n => if n = item.1 ∧ waits r then some ⟨item.2, expiry, 0, none⟩ else board r n

def grant (reader : ρ) (deadline : Int) (given : ν × τ) (board : Board ρ ν τ π) :
    Board ρ ν τ π :=
  fun r n =>
    if r = reader ∧ n = given.1 then (board r n).map (Held.grant given.2 deadline) else board r n

/-- The items posted one after the other. -/
def posts (waits : ρ → Bool) (expiry : Int) (items : List (ν × π)) (board : Board ρ ν τ π) :
    Board ρ ν τ π :=
  items.foldl (fun board item => board.post waits expiry item) board

/-- The leases granted one after the other. -/
def grants (reader : ρ) (deadline : Int) (given : List (ν × τ)) (board : Board ρ ν τ π) :
    Board ρ ν τ π :=
  given.foldl (fun board entry => board.grant reader deadline entry) board

/-- What the items are, apart from their leases. -/
def contents (board : Board ρ ν τ π) (reader : ρ) (name : ν) : Option (π × Int) :=
  (board reader name).map Held.content

end

variable {board : Board ρ ν τ π} {reader r : ρ} {n : ν}

theorem sweep_some {now : Int} {held : Held τ π} :
    board.sweep now r n = some held ↔ board r n = some held ∧ now < held.expiry := by
  simp [sweep, Option.filter_eq_some_iff]

theorem sweep_kept {now : Int} (h : ∀ held, board r n = some held → now < held.expiry) :
    board.sweep now r n = board r n := by
  unfold sweep
  cases hb : board r n with
  | none => rfl
  | some held => simpa [Option.filter] using h held hb

@[simp] theorem contents_sweep (now : Int) : contents (board.sweep now) r n =
    (contents board r n).filter fun content => decide (now < content.2) := by
  unfold contents sweep
  rw [Option.filter_map]
  rfl

section
variable [DecidableEq ρ]

theorem onReader_other (hr : r ≠ reader) (f : Held τ π → Option (Held τ π)) :
    board.onReader reader f r n = board r n := if_neg hr

theorem onLeases_some {f : Option (Lease τ) → Option (Lease τ)} {held : Held τ π} :
    board.onLeases reader f r n = some held ↔ ∃ old, board r n = some old ∧
      held = if r = reader then old.setLease (f old.lease) else old := by
  unfold onLeases onReader
  split
  · rw [Option.bind_eq_some_iff]
    simp only [Option.some.injEq, eq_comm]
  · simp

/-- The items that a sweep and the end of leases leave free. -/
theorem free_sweep_some [DecidableEq τ] {now : Int} {held : Held τ π} :
    ((board.sweep now).free reader now reader n = some held ∧ held.lease = none) ↔
      ∃ old, board reader n = some old ∧ old.ready now = true ∧ held = old.setLease none := by
  have hfree : ∀ lease : Option (Lease τ), Lease.free now lease = none ↔
      lease.all (fun lease => decide (lease.deadline ≤ now)) = true := by
    intro lease
    cases lease <;> simp [Lease.free, Option.filter_eq_none_iff]
  unfold free
  rw [onLeases_some]
  simp only [sweep_some, if_true, Held.ready, Bool.and_eq_true, decide_eq_true_eq]
  constructor
  · rintro ⟨⟨old, ⟨hb, hlt⟩, rfl⟩, hl⟩
    have hnone : Lease.free now old.lease = none := hl
    exact ⟨old, hb, ⟨hlt, (hfree _).mp hnone⟩, by rw [hnone]⟩
  · rintro ⟨old, hb, ⟨hlt, hl⟩, rfl⟩
    exact ⟨⟨old, ⟨hb, hlt⟩, by rw [(hfree _).mpr hl]⟩, rfl⟩

/-- Leases that are left as they are. -/
theorem onLeases_kept {f : Option (Lease τ) → Option (Lease τ)}
    (hf : ∀ held, board r n = some held → r = reader → f held.lease = held.lease) :
    board.onLeases reader f r n = board r n := by
  unfold onLeases onReader
  split
  · rename_i hr
    cases hb : board r n with
    | none => rfl
    | some held =>
      rw [Option.bind_some, hf held hb hr]
      rfl
  · rfl

theorem onReader_onReader (f g : Held τ π → Option (Held τ π)) :
    (board.onReader reader f).onReader reader g = board.onReader reader fun held =>
      (f held).bind g := by
  funext r n
  unfold onReader
  split
  · cases board r n <;> rfl
  · rfl

theorem drop_drop : (board.drop reader).drop reader = board.drop reader := onReader_onReader _ _

theorem onLeases_onLeases (f g : Option (Lease τ) → Option (Lease τ)) :
    (board.onLeases reader f).onLeases reader g = board.onLeases reader (g ∘ f) :=
  onReader_onReader _ _

theorem onLeases_id {f : Option (Lease τ) → Option (Lease τ)} (hf : ∀ lease, f lease = lease) :
    board.onLeases reader f = board := by
  funext r n
  unfold onLeases onReader
  simp only [hf, Held.setLease]
  split
  · cases board r n <;> rfl
  · rfl

@[simp] theorem contents_onLeases (f : Option (Lease τ) → Option (Lease τ)) :
    contents (board.onLeases reader f) r n = contents board r n := by
  unfold contents onLeases onReader
  split
  · cases board r n <;> rfl
  · rfl

@[simp] theorem contents_drop : contents (board.drop reader) r n =
    if r = reader then none else contents board r n := by
  unfold contents drop onReader
  split
  · cases board r n <;> rfl
  · rfl

section
variable [DecidableEq τ]

theorem take_kept {tokens : List τ}
    (hu : ∀ held, board r n = some held → r = reader → held.under tokens = false) :
    board.take reader tokens r n = board r n := by
  unfold take onReader
  split
  · rename_i hr
    cases hb : board r n with
    | none => rfl
    | some held =>
      rw [Option.bind_some, hu held hb hr]
      rfl
  · rfl

/-- The leases taken one after the other. -/
theorem take_each (tokens : List τ) (board : Board ρ ν τ π) :
    tokens.foldl (fun board token => board.take reader [token]) board =
      board.take reader tokens := by
  induction tokens generalizing board with
  | nil =>
    funext r n
    simp [take, onReader, Held.under]
  | cons token tokens ih =>
    rw [List.foldl_cons, ih, take, take, onReader_onReader, take]
    congr 1
    funext held
    by_cases ht : held.under [token] = true
    · have hall : held.under (token :: tokens) = true := by
        simp only [Held.under, Option.any_eq_true, decide_eq_true_eq] at ht ⊢
        obtain ⟨lease, hl, hm⟩ := ht
        exact ⟨lease, hl, List.mem_cons.mpr (.inl (List.mem_singleton.mp hm))⟩
      rw [if_pos ht, if_pos hall, Option.bind_none]
    · have heq : held.under (token :: tokens) = held.under tokens := by
        unfold Held.under at ht ⊢
        cases hl : held.lease with
        | none => rfl
        | some lease =>
          simp only [hl, Option.any_some, decide_eq_true_eq, List.mem_singleton] at ht
          simp [ht]
      rw [if_neg ht, Option.bind_some, heq]

theorem giveBack_each (tokens : List τ) (board : Board ρ ν τ π) :
    tokens.foldl (fun board token => board.giveBack reader [token]) board =
      board.giveBack reader tokens := by
  induction tokens generalizing board with
  | nil => exact (onLeases_id fun lease => by cases lease <;> simp [Lease.close, Option.filter]).symm
  | cons token tokens ih =>
    rw [List.foldl_cons, ih, giveBack, giveBack, onLeases_onLeases, giveBack]
    congr 1
    funext lease
    cases lease with
    | none => rfl
    | some lease =>
      by_cases ht : lease.token = token <;>
        simp [Lease.close, Option.filter_some, ht]

theorem extend_each (deadline : Int) (tokens : List τ) (board : Board ρ ν τ π) :
    tokens.foldl (fun board token => board.extend reader [token] deadline) board =
      board.extend reader tokens deadline := by
  induction tokens generalizing board with
  | nil => exact (onLeases_id fun lease => by cases lease <;> simp [Lease.extend]).symm
  | cons token tokens ih =>
    rw [List.foldl_cons, ih, extend, extend, onLeases_onLeases, extend]
    congr 1
    funext lease
    cases lease with
    | none => rfl
    | some lease =>
      by_cases ht : lease.token = token <;> by_cases hts : lease.token ∈ tokens <;>
        simp [Lease.extend, ht, hts]

end

@[simp] theorem contents_take [DecidableEq τ] (tokens : List τ) :
    contents (board.take reader tokens) r n =
    if r = reader ∧ (board r n).any (Held.under tokens) then none else contents board r n := by
  unfold contents take onReader
  by_cases hr : r = reader
  · cases hb : board r n with
    | none => simp [hr]
    | some held => cases hu : held.under tokens <;> simp [hr, hu]
  · simp [hr]

end

section
variable [DecidableEq ν]

@[simp] theorem contents_post {waits : ρ → Bool} {expiry : Int} {item : ν × π} :
    contents (board.post waits expiry item) r n =
      if n = item.1 ∧ waits r then some (item.2, expiry) else contents board r n := by
  unfold contents post
  split <;> rfl

theorem posts_other {waits : ρ → Bool} {expiry : Int} {items : List (ν × π)}
    (hn : n ∉ items.map Prod.fst) : board.posts waits expiry items r n = board r n := by
  unfold posts
  induction items generalizing board with
  | nil => rfl
  | cons item items ih =>
    rw [List.map_cons, List.mem_cons, not_or] at hn
    rw [List.foldl_cons, ih hn.2]
    exact if_neg fun hi => hn.1 hi.1

theorem posts_unheard {waits : ρ → Bool} {expiry : Int} {items : List (ν × π)}
    (hw : waits r = false) : board.posts waits expiry items r n = board r n := by
  unfold posts
  induction items generalizing board with
  | nil => rfl
  | cons item items ih =>
    rw [List.foldl_cons, ih]
    exact if_neg fun h => by simp [hw] at h

theorem posts_nobody {waits : ρ → Bool} {expiry : Int} {items : List (ν × π)}
    (hw : ∀ r, waits r = false) : board.posts waits expiry items = board := by
  funext r n
  exact posts_unheard (hw r)

/-- Items under different names do not hide one another. -/
theorem posts_posted {waits : ρ → Bool} {expiry : Int} {items : List (ν × π)}
    (hitems : (items.map Prod.fst).Nodup) {item : ν × π} (hi : item ∈ items)
    (hw : waits r = true) :
    board.posts waits expiry items r item.1 = some ⟨item.2, expiry, 0, none⟩ := by
  unfold posts
  induction items generalizing board with
  | nil => cases hi
  | cons first items ih =>
    rw [List.map_cons, List.nodup_cons] at hitems
    rw [List.foldl_cons]
    rcases List.mem_cons.mp hi with rfl | hi
    · rw [← posts, posts_other hitems.1]
      exact if_pos ⟨rfl, hw⟩
    · exact ih hitems.2 hi

variable [DecidableEq ρ]

@[simp] theorem contents_grant {deadline : Int} {given : ν × τ} :
    contents (board.grant reader deadline given) r n = contents board r n := by
  unfold contents grant
  split
  · cases board r n <;> rfl
  · rfl

@[simp] theorem contents_grants {deadline : Int} {given : List (ν × τ)} :
    contents (board.grants reader deadline given) r n = contents board r n := by
  unfold grants
  induction given generalizing board with
  | nil => rfl
  | cons entry given ih => rw [List.foldl_cons, ih, contents_grant]

theorem grants_other {deadline : Int} {given : List (ν × τ)} (hr : r ≠ reader) :
    board.grants reader deadline given r n = board r n := by
  unfold grants
  induction given generalizing board with
  | nil => rfl
  | cons entry given ih =>
    rw [List.foldl_cons, ih]
    exact if_neg fun h => hr h.1

end

end Board
end FirebaseEmu.Lib
