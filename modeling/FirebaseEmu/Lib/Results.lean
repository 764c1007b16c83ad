import Mathlib.Data.List.Perm.Basic

namespace FirebaseEmu.Lib

theorem exceptMap_eq_ok {ε α β : Type} {f : α → β} {x : Except ε α} {b : β} :
    x.map f = .ok b ↔ ∃ a, x = .ok a ∧ f a = b := by
  cases x <;> simp [Except.map]

theorem exceptMap_eq_error {ε α β : Type} {f : α → β} {x : Except ε α} {e : ε} :
    x.map f = .error e ↔ x = .error e := by
  cases x <;> simp [Except.map]

theorem exceptBind_eq_ok {ε α β : Type} {f : α → Except ε β} {x : Except ε α} {b : β} :
    x.bind f = .ok b ↔ ∃ a, x = .ok a ∧ f a = .ok b := by
  cases x <;> simp [Except.bind]

/-- All the answers, or the first refusal among them. -/
def allOk {ε ρ : Type} : List (Except ε ρ) → Except ε (List ρ)
  | [] => .ok []
  | .ok r :: outcomes => (allOk outcomes).map (r :: ·)
  | .error e :: _ => .error e

theorem allOk_eq_ok {ε ρ : Type} {outcomes : List (Except ε ρ)} {results : List ρ} :
    allOk outcomes = .ok results ↔ outcomes = results.map .ok := by
  induction outcomes generalizing results with
  | nil => cases results <;> simp [allOk]
  | cons outcome outcomes ih =>
    cases outcome with
    | error e => cases results <;> simp [allOk]
    | ok r =>
      cases hr : allOk outcomes with
      | error e =>
        cases results with
        | nil => simp [allOk, hr, Except.map]
        | cons r' results => simp [allOk, hr, Except.map, ← ih]
      | ok rest =>
        have hrest := ih.mp hr
        cases results with
        | nil => simp [allOk, hr, Except.map]
        | cons r' results => simp [allOk, hr, Except.map, ← ih]

/-- There is a refusal to answer exactly when some operation is refused. -/
theorem allOk_isOk {ε ρ : Type} (outcomes : List (Except ε ρ)) :
    (allOk outcomes).isOk ↔ ∀ outcome ∈ outcomes, outcome.isOk := by
  induction outcomes with
  | nil => simp [allOk, Except.isOk, Except.toBool]
  | cons outcome outcomes ih =>
    cases outcome with
    | error e => simp [allOk, Except.isOk, Except.toBool]
    | ok r =>
      rw [List.forall_mem_cons, ← ih]
      cases hr : allOk outcomes <;> simp [allOk, hr, Except.map, Except.isOk, Except.toBool]

theorem mapM_eq_allOk {ε α ρ : Type} (f : α → Except ε ρ) (l : List α) :
    l.mapM f = allOk (l.map f) := by
  induction l with
  | nil => rfl
  | cons a l ih =>
    rw [List.mapM_cons, ih, List.map_cons]
    cases f a with
    | error e => rfl
    | ok r => cases hr : allOk (l.map f) <;> simp [allOk, hr, bind, Except.bind, pure, Except.pure,
        Except.map]

/-- A list is read when each of its elements is, with the results in their order. -/
theorem mapM_eq_some {α ρ : Type} {f : α → Option ρ} {l : List α} {results : List ρ} :
    l.mapM f = some results ↔ List.Forall₂ (fun a r => f a = some r) l results := by
  induction l generalizing results with
  | nil => cases results <;> simp
  | cons a l ih =>
    rw [List.mapM_cons, Option.bind_eq_bind, Option.bind_eq_some_iff]
    constructor
    · rintro ⟨r, hr, h⟩
      obtain ⟨rest, hrest, h⟩ := Option.bind_eq_some_iff.mp h
      cases h
      exact .cons hr (ih.mp hrest)
    · intro h
      cases h with
      | cons hr hrest => exact ⟨_, hr, by rw [ih.mpr hrest]; rfl⟩

/-- What is read from a list is read from one of its elements. -/
theorem mem_mapM {α ρ : Type} {f : α → Option ρ} {l : List α} {results : List ρ}
    (h : l.mapM f = some results) {r : ρ} (hr : r ∈ results) : ∃ a ∈ l, f a = some r := by
  replace h := mapM_eq_some.mp h
  induction h with
  | nil => cases hr
  | @cons a _ l _ ha _ ih =>
    rcases List.mem_cons.mp hr with rfl | hr
    · exact ⟨a, List.mem_cons_self, ha⟩
    · obtain ⟨b, hb, hf⟩ := ih hr
      exact ⟨b, List.mem_cons_of_mem _ hb, hf⟩

/-- Operations in another order answer the same, in that order. -/
theorem map_ok_perm {ε α ρ : Type} {f : α → Except ε ρ} {l l' : List α} {rs : List ρ}
    (hp : l'.Perm l) (h : l.map f = rs.map .ok) :
    ∃ rs' : List ρ, l'.map f = rs'.map .ok ∧ rs'.Perm rs := by
  have hiff : ∀ (l : List α) (rs : List ρ),
      l.map f = rs.map .ok ↔ List.Forall₂ (fun a r => f a = .ok r) l rs := by
    intro l rs
    rw [← List.forall₂_eq_eq_eq, List.forall₂_map_left_iff, List.forall₂_map_right_iff]
  obtain ⟨rs', hl, hr⟩ := List.perm_comp_forall₂ hp ((hiff l rs).mp h)
  exact ⟨rs', (hiff l' rs').mpr hl, hr⟩

/-- Steps that commute where an invariant holds can be taken in any order. -/
theorem foldl_perm {α β : Type} {f : β → α → β} (inv : β → Prop) {R : α → α → Prop}
    (hsymm : ∀ x y, R x y → R y x) (hkeep : ∀ b a, inv b → inv (f b a))
    (hcomm : ∀ b x y, inv b → R x y → f (f b x) y = f (f b y) x) {l l' : List α}
    (hp : l.Perm l') (hl : l.Pairwise R) (b : β) (hb : inv b) : l.foldl f b = l'.foldl f b := by
  induction hp generalizing b with
  | nil => rfl
  | cons a _ ih => exact ih (List.pairwise_cons.mp hl).2 _ (hkeep b a hb)
  | swap x y l =>
    have hyx : R y x := (List.pairwise_cons.mp hl).1 x List.mem_cons_self
    rw [List.foldl_cons, List.foldl_cons, hcomm b y x hb hyx]
    rfl
  | trans hp _ ih ih' =>
    have hl' := (hp.pairwise_iff (fun {x y} => hsymm x y)).mp hl
    rw [ih hl b hb, ih' hl' b hb]

theorem forM_eq_ok {ε α : Type} {f : α → Except ε Unit} {l : List α} :
    l.forM f = .ok () ↔ ∀ a ∈ l, f a = .ok () := by
  induction l with
  | nil => simp [pure, Except.pure]
  | cons a l ih =>
    rw [List.forall_mem_cons, ← ih]
    show (f a >>= fun _ => l.forM f) = .ok () ↔ _
    cases f a <;> simp [bind, Except.bind]

/-- A list is answered when each of its elements is, with the answers in their order. -/
theorem mapM_eq_ok_iff {ε α ρ : Type} {f : α → Except ε ρ} {l : List α} {results : List ρ} :
    l.mapM f = .ok results ↔
      (∀ a ∈ l, ∃ r, f a = .ok r) ∧ results = l.filterMap fun a => (f a).toOption := by
  rw [mapM_eq_allOk, allOk_eq_ok]
  induction l generalizing results with
  | nil => cases results <;> simp
  | cons a l ih =>
    cases hf : f a with
    | error e =>
      cases results <;> simp [hf]
    | ok r =>
      cases results with
      | nil => simp [hf, Except.toOption]
      | cons r' results =>
        simp only [List.map_cons, hf, List.cons.injEq, Except.ok.injEq, ih, List.forall_mem_cons,
          List.filterMap_cons, Except.toOption, exists_eq']
        grind

theorem foldlM_congr {ε α β : Type} {f g : β → α → Except ε β} {l : List α}
    (h : ∀ a ∈ l, ∀ b, f b a = g b a) (b : β) : l.foldlM f b = l.foldlM g b := by
  induction l generalizing b with
  | nil => rfl
  | cons a l ih =>
    rw [List.forall_mem_cons] at h
    rw [List.foldlM_cons, List.foldlM_cons, h.1 b]
    simp only [ih h.2]

end FirebaseEmu.Lib
