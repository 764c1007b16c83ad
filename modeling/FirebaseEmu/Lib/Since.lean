import Mathlib.Data.List.Induction

namespace FirebaseEmu.Lib

variable {ε : Type} {opens closes : ε → Prop}

/-- Some event opened and no later event closed. -/
def Since (opens closes : ε → Prop) (events : List ε) : Prop :=
  ∃ before event after, events = before ++ event :: after ∧ opens event ∧
    ∀ later ∈ after, ¬ closes later

theorem not_since_nil : ¬ Since opens closes [] := by
  rintro ⟨before, event, after, he, -⟩
  simp at he

/-- The last event opens, or it leaves open what was. -/
theorem since_concat {events : List ε} {event : ε} :
    Since opens closes (events ++ [event]) ↔
      opens event ∨ Since opens closes events ∧ ¬ closes event := by
  constructor
  · rintro ⟨before, opening, after, he, ho, hn⟩
    rcases List.eq_nil_or_concat after with rfl | ⟨rest, last, rfl⟩
    · have := List.append_inj' he rfl
      obtain rfl : event = opening := by simpa using this.2
      exact .inl ho
    · have he' : events ++ [event] = (before ++ opening :: rest) ++ [last] := by simpa using he
      obtain ⟨hpre, hl⟩ := List.append_inj' he' rfl
      obtain rfl : event = last := by simpa using hl
      exact .inr ⟨⟨before, opening, rest, hpre, ho, fun later h => hn later (by simp [h])⟩,
        hn event (by simp)⟩
  · rintro (ho | ⟨⟨before, opening, after, rfl, ho, hn⟩, hc⟩)
    · exact ⟨events, event, [], rfl, ho, by simp⟩
    · refine ⟨before, opening, after ++ [event], by simp, ho, ?_⟩
      intro later h
      rcases List.mem_append.mp h with h | h
      · exact hn later h
      · rw [List.mem_singleton.mp h]
        exact hc

theorem Since.opened {events : List ε} (h : Since opens closes events) :
    ∃ event ∈ events, opens event := by
  obtain ⟨before, event, after, rfl, ho, -⟩ := h
  exact ⟨event, by simp, ho⟩

/-- Where an event of a kind happened, there is a last one. -/
theorem since_self {kind : ε → Prop} {events : List ε} (h : ∃ event ∈ events, kind event) :
    Since kind kind events := by
  induction events using List.reverseRecOn with
  | nil => simp at h
  | append_singleton events last ih =>
    rw [since_concat]
    by_cases hk : kind last
    · exact .inl hk
    · obtain ⟨event, hm, he⟩ := h
      rcases List.mem_append.mp hm with hm | hm
      · exact .inr ⟨ih ⟨event, hm, he⟩, hk⟩
      · exact absurd (List.mem_singleton.mp hm ▸ he) hk

end FirebaseEmu.Lib
