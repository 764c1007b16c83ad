namespace FirebaseEmu.Lib

/-- The states a machine comes to from an initial one by steps that are allowed. -/
inductive Reach {σ ε : Type} (step : σ → ε → σ) (allowed : σ → ε → Prop) (initial : σ → Prop) :
    σ → Prop where
  | start {s : σ} (h : initial s) : Reach step allowed initial s
  | step {s : σ} (h : Reach step allowed initial s) (event : ε) (ha : allowed s event) :
    Reach step allowed initial (step s event)

namespace Reach

variable {σ ε : Type} {step : σ → ε → σ} {allowed : σ → ε → Prop} {initial : σ → Prop}

/-- What holds at the start and is kept by every allowed step holds in every state. -/
theorem invariant {I : σ → Prop} (hstart : ∀ s, initial s → I s)
    (hstep : ∀ s event, I s → allowed s event → I (step s event)) {s : σ}
    (h : Reach step allowed initial s) : I s := by
  induction h with
  | start h => exact hstart _ h
  | step h event ha ih => exact hstep _ event ih ha

theorem mono {initial' : σ → Prop} (hi : ∀ s, initial s → initial' s) {s : σ}
    (h : Reach step allowed initial s) : Reach step allowed initial' s := by
  induction h with
  | start h => exact .start (hi _ h)
  | step h event ha ih => exact ih.step event ha

/-- The events are allowed one after the other. -/
def Along (step : σ → ε → σ) (allowed : σ → ε → Prop) : σ → List ε → Prop
  | _, [] => True
  | s, event :: events => allowed s event ∧ Along step allowed (step s event) events

instance Along.decidable [∀ s event, Decidable (allowed s event)] :
    (s : σ) → (events : List ε) → Decidable (Along step allowed s events)
  | _, [] => .isTrue trivial
  | s, event :: events =>
    have := Along.decidable (step s event) events
    inferInstanceAs (Decidable (allowed s event ∧ Along step allowed (step s event) events))

theorem along_free (h : ∀ s event, allowed s event) (s : σ) (events : List ε) :
    Along step allowed s events := by
  induction events generalizing s with
  | nil => trivial
  | cons event events ih => exact ⟨h s event, ih _⟩

theorem Along.and {P : ε → Prop} {s : σ} {events : List ε} (h : Along step allowed s events)
    (hp : ∀ event ∈ events, P event) :
    Along step (fun s event => P event ∧ allowed s event) s events := by
  induction events generalizing s with
  | nil => trivial
  | cons event events ih =>
    exact ⟨⟨hp event List.mem_cons_self, h.1⟩,
      ih h.2 fun e he => hp e (List.mem_cons_of_mem _ he)⟩

theorem run {s : σ} (h : Reach step allowed initial s) {events : List ε}
    (ha : Along step allowed s events) : Reach step allowed initial (events.foldl step s) := by
  induction events generalizing s with
  | nil => exact h
  | cons event events ih => exact ih (h.step event ha.1) ha.2

end Reach

end FirebaseEmu.Lib
