import FirebaseEmu.Lib.Results
import Mathlib.Logic.Function.Basic
import Std.Data.ExtTreeMap

namespace FirebaseEmu.Lib
open Std

/-- A step that a listener still has to take: to send a message, to evaluate a target
against the previous result, or to store the current result as the previous one. -/
inductive Op (ι τ σ μ : Type) where
  | send (message : μ)
  | evaluate (id : ι) (target : τ) (previous : σ) (initial : Bool)
  | store (id : ι) (target : τ) (current : σ)

/-- A listener: its targets with their previous results, the messages it has sent, and
the steps it still has to take. -/
structure Watch (ι τ σ μ : Type) [Ord ι] where
  targets : ExtTreeMap ι (τ × σ)
  sent : List μ
  todo : List (Op ι τ σ μ)

/-- What a listener makes of the answer to an evaluation: the result it keeps, and the
messages it sends before and after it stores that. And what a client makes of them: its
view of each target, and whether that shows a result. -/
structure Feed (ι τ σ δ μ γ : Type) where
  result : δ → σ
  before : ι → σ → δ → Bool → List μ
  after : ι → σ → δ → Bool → List μ
  view : ι → γ → μ → γ
  empty : γ
  shows : γ → σ → Prop

namespace Feed

variable {ι τ σ δ μ γ : Type} (f : Feed ι τ σ δ μ γ)

/-- The messages of one evaluation are about its target, and for a valid answer bring a
view that shows the previous result to one that shows the current result. -/
structure Lawful (valid : δ → Prop) : Prop where
  other : ∀ id previous answer initial,
    ∀ message ∈ f.before id previous answer initial ++ f.after id previous answer initial,
    ∀ j, j ≠ id → ∀ view, f.view j view message = view
  reaches : ∀ id previous answer initial view, valid answer → f.shows view previous →
    f.shows ((f.before id previous answer initial ++ f.after id previous answer initial).foldl
      (f.view id) view) (f.result answer)

def emit (id : ι) (target : τ) (previous : σ) (answer : δ) (initial : Bool) :
    List (Op ι τ σ μ) :=
  (f.before id previous answer initial).map .send ++
    .store id target (f.result answer) :: (f.after id previous answer initial).map .send

/-- The client's view of each target, from the messages sent. -/
def views (sent : List μ) (id : ι) : γ := sent.foldl (f.view id) f.empty

variable {f} in
theorem foldl_view_other {id : ι} {messages : List μ}
    (h : ∀ message ∈ messages, ∀ view, f.view id view message = view) (view : γ) :
    messages.foldl (f.view id) view = view := by
  induction messages with
  | nil => rfl
  | cons message messages ih =>
    rw [List.foldl_cons, h message List.mem_cons_self]
    exact ih fun m hm => h m (List.mem_cons_of_mem _ hm)

variable {f} in
theorem views_concat (sent : List μ) (message : μ) :
    f.views (sent ++ [message]) = fun id => f.view id (f.views sent id) message := by
  funext id
  simp [views]

/-- A step of evaluation for each entry. -/
def evaluations (entries : List (ι × τ × σ)) (initial : Bool) : List (Op ι τ σ μ) :=
  entries.map fun entry => .evaluate entry.1 entry.2.1 entry.2.2 initial

section Machine
variable [Ord ι] [TransOrd ι]

/-- The next step of a listener, or the error of the evaluation of a target. -/
def advance {ε : Type} (read : τ → Except ε δ) (w : Watch ι τ σ μ) :
    Except ε (Watch ι τ σ μ) :=
  match w.todo with
  | [] => .ok w
  | .send message :: ops => .ok { w with sent := w.sent ++ [message], todo := ops }
  | .store id target current :: ops =>
    .ok { w with targets := w.targets.insert id (target, current), todo := ops }
  | .evaluate id target previous initial :: ops =>
    (read target).map fun answer =>
      { w with todo := f.emit id target previous answer initial ++ ops }

/-- The targets in turn. -/
def entries (w : Watch ι τ σ μ) : List (ι × τ × σ) := w.targets.toList

theorem entries_nodup (w : Watch ι τ σ μ) : ((entries w).map Prod.fst).Nodup := by
  rw [entries, ExtTreeMap.map_fst_toList_eq_keys]
  exact w.targets.nodup_keys

/-- A listener with nothing to do that evaluates all its targets again. -/
def refresh (w : Watch ι τ σ μ) : Watch ι τ σ μ :=
  { w with todo := evaluations (entries w) false }

section Entries
variable [LawfulEqOrd ι]

theorem mem_entries {w : Watch ι τ σ μ} {entry : ι × τ × σ} :
    entry ∈ entries w ↔ w.targets[entry.1]? = some entry.2 :=
  ExtTreeMap.mem_toList_iff_getElem?_eq_some

theorem mem_entries_fst {w : Watch ι τ σ μ} {id : ι} {entry : τ × σ}
    (h : w.targets[id]? = some entry) : id ∈ (entries w).map Prod.fst :=
  List.mem_map.mpr ⟨(id, entry), mem_entries.mpr h, rfl⟩

end Entries

end Machine

section Invariants
variable [DecidableEq ι]

/-- Whatever the evaluations will read, at the end of the steps the view of each target
shows its previous result. -/
def Faithful : (ι → γ) → (ι → Option (τ × σ)) → List (Op ι τ σ μ) → Prop
  | views, targets, [] => ∀ id target previous, targets id = some (target, previous) →
    f.shows (views id) previous
  | views, targets, .send message :: ops =>
    Faithful (fun id => f.view id (views id) message) targets ops
  | views, targets, .store id target current :: ops =>
    Faithful views (Function.update targets id (some (target, current))) ops
  | views, targets, .evaluate id target previous _ :: ops => f.shows (views id) previous ∧
    ∀ answer view, f.shows view (f.result answer) →
      Faithful (Function.update views id view)
        (Function.update targets id (some (target, f.result answer))) ops

/-- If the evaluations read good results, at the end of the steps each target has one. -/
def Fresh (good : τ → σ → Prop) : (ι → Option (τ × σ)) → List (Op ι τ σ μ) → Prop
  | targets, [] => ∀ id target previous, targets id = some (target, previous) →
    good target previous
  | targets, .send _ :: ops => Fresh good targets ops
  | targets, .store id target current :: ops =>
    Fresh good (Function.update targets id (some (target, current))) ops
  | targets, .evaluate id _ _ _ :: ops => Fresh good (Function.update targets id none) ops

variable {f}

theorem faithful_sends {views : ι → γ} {targets : ι → Option (τ × σ)} {messages : List μ}
    {ops : List (Op ι τ σ μ)} :
    f.Faithful views targets (messages.map .send ++ ops) ↔
      f.Faithful (fun id => messages.foldl (f.view id) (views id)) targets ops := by
  induction messages generalizing views with
  | nil => rfl
  | cons message messages ih => exact ih

theorem fresh_sends {good : τ → σ → Prop} {targets : ι → Option (τ × σ)} {messages : List μ}
    {ops : List (Op ι τ σ μ)} :
    Fresh good targets (messages.map .send ++ ops) ↔ Fresh good targets ops := by
  induction messages with
  | nil => rfl
  | cons message messages ih => exact ih

/-- A target more does no harm if its result is good. -/
theorem Fresh.put {good : τ → σ → Prop} {ops : List (Op ι τ σ μ)} :
    ∀ {targets targets' : ι → Option (τ × σ)}, Fresh good targets ops →
      (∀ id target previous, targets' id = some (target, previous) →
        targets id = some (target, previous) ∨ good target previous) →
      Fresh good targets' ops := by
  have hupdate : ∀ {targets targets' : ι → Option (τ × σ)} (id : ι) (entry : Option (τ × σ)),
      (∀ id target previous, targets' id = some (target, previous) →
        targets id = some (target, previous) ∨ good target previous) →
      ∀ j target previous, Function.update targets' id entry j = some (target, previous) →
        Function.update targets id entry j = some (target, previous) ∨ good target previous := by
    intro targets targets' id entry h j target previous hj
    by_cases he : j = id
    · subst he
      rw [Function.update_self] at hj ⊢
      exact .inl hj
    · rw [Function.update_of_ne he] at hj ⊢
      exact h j target previous hj
  induction ops with
  | nil =>
    intro targets targets' h hput id target previous ht
    rcases hput id target previous ht with ht | hg
    · exact h id target previous ht
    · exact hg
  | cons op ops ih =>
    intro targets targets' h hput
    cases op with
    | send message => exact ih h hput
    | store id target current => exact ih h (hupdate id _ hput)
    | evaluate id target previous initial => exact ih h (hupdate id _ hput)

theorem Fresh.mono {good good' : τ → σ → Prop} (hle : ∀ target result, good target result →
    good' target result) {ops : List (Op ι τ σ μ)} : ∀ {targets : ι → Option (τ × σ)},
      Fresh good targets ops → Fresh good' targets ops := by
  induction ops with
  | nil => exact fun h id target previous ht => hle _ _ (h id target previous ht)
  | cons op ops ih =>
    intro targets h
    cases op <;> exact ih h

/-- What an evaluation adds to the steps keeps them faithful. -/
theorem Faithful.emit {valid : δ → Prop} (hf : f.Lawful valid) {views : ι → γ}
    {targets : ι → Option (τ × σ)} {id : ι} {target : τ} {previous : σ} {initial : Bool}
    {ops : List (Op ι τ σ μ)}
    (h : f.Faithful views targets (.evaluate id target previous initial :: ops)) {answer : δ}
    (hvalid : valid answer) :
    f.Faithful views targets (f.emit id target previous answer initial ++ ops) := by
  obtain ⟨hshows, hrest⟩ := h
  have hreached := hf.reaches id previous answer initial _ hvalid hshows
  have hviews : (fun j => (f.before id previous answer initial ++
        f.after id previous answer initial).foldl (f.view j) (views j)) =
      Function.update views id ((f.before id previous answer initial ++
        f.after id previous answer initial).foldl (f.view id) (views id)) := by
    funext j
    by_cases hj : j = id
    · subst hj
      rw [Function.update_self]
    · rw [Function.update_of_ne hj]
      exact foldl_view_other (fun m hm => hf.other id previous answer initial m hm j hj) _
  have hdone := hrest answer _ hreached
  rw [← hviews] at hdone
  simp only [List.foldl_append] at hdone
  rw [Feed.emit, List.append_assoc, faithful_sends]
  exact faithful_sends.mpr hdone

theorem Fresh.emit {good : τ → σ → Prop} {targets : ι → Option (τ × σ)} {id : ι} {target : τ}
    {previous : σ} {initial : Bool} {ops : List (Op ι τ σ μ)}
    (h : Fresh good targets (.evaluate id target previous initial :: ops)) {answer : δ}
    (hgood : good target (f.result answer)) :
    Fresh good targets (f.emit id target previous answer initial ++ ops) := by
  rw [Feed.emit, List.append_assoc, fresh_sends]
  refine fresh_sends.mpr (Fresh.put h fun j target' current hj => ?_)
  by_cases he : j = id
  · subst he
    rw [Function.update_self] at hj
    obtain ⟨rfl, rfl⟩ := Prod.mk.inj (Option.some.inj hj)
    exact .inr hgood
  · rw [Function.update_of_ne he] at hj ⊢
    exact .inl hj

/-- Targets that are shown, or are about to be evaluated against what is shown. -/
theorem faithful_evaluations {views : ι → γ} {targets : ι → Option (τ × σ)}
    (entries : List (ι × τ × σ)) (initial : Bool) (hnodup : (entries.map Prod.fst).Nodup)
    (hentries : ∀ entry ∈ entries, f.shows (views entry.1) entry.2.2)
    (hothers : ∀ id target previous, id ∉ entries.map Prod.fst →
      targets id = some (target, previous) → f.shows (views id) previous) :
    f.Faithful views targets (evaluations entries initial) := by
  induction entries generalizing views targets with
  | nil => exact fun id target previous ht => hothers id target previous (by simp) ht
  | cons entry entries ih =>
    obtain ⟨id, target, previous⟩ := entry
    rw [List.map_cons, List.nodup_cons] at hnodup
    refine ⟨hentries _ List.mem_cons_self, fun answer view hview => ih hnodup.2 ?_ ?_⟩
    · intro entry hm
      have hne : entry.1 ≠ id := by
        rintro rfl
        exact hnodup.1 (List.mem_map.mpr ⟨entry, hm, rfl⟩)
      rw [Function.update_of_ne hne]
      exact hentries entry (List.mem_cons_of_mem _ hm)
    · intro j target' previous' hj ht
      by_cases he : j = id
      · subst he
        rw [Function.update_self] at ht ⊢
        obtain ⟨rfl, rfl⟩ := Prod.mk.inj (Option.some.inj ht)
        exact hview
      · rw [Function.update_of_ne he] at ht ⊢
        refine hothers j target' previous' ?_ ht
        rw [List.map_cons, List.mem_cons, not_or]
        exact ⟨he, hj⟩

/-- Targets with good results, or about to be evaluated. -/
theorem fresh_evaluations {good : τ → σ → Prop} {targets : ι → Option (τ × σ)}
    (entries : List (ι × τ × σ)) (initial : Bool)
    (hothers : ∀ id target previous, id ∉ entries.map Prod.fst →
      targets id = some (target, previous) → good target previous) :
    Fresh good targets (evaluations entries initial : List (Op ι τ σ μ)) := by
  induction entries generalizing targets with
  | nil => exact fun id target previous ht => hothers id target previous (by simp) ht
  | cons entry entries ih =>
    refine ih fun j target' previous' hj ht => ?_
    by_cases he : j = entry.1
    · subst he
      rw [Function.update_self] at ht
      cases ht
    · rw [Function.update_of_ne he] at ht
      refine hothers j target' previous' ?_ ht
      rw [List.map_cons, List.mem_cons, not_or]
      exact ⟨he, hj⟩

end Invariants

section Steps
variable [Ord ι] [TransOrd ι] [DecidableEq ι] {f}

def FaithfulWatch (f : Feed ι τ σ δ μ γ) (w : Watch ι τ σ μ) : Prop :=
  f.Faithful (f.views w.sent) (fun id => w.targets[id]?) w.todo

def FreshWatch (good : τ → σ → Prop) (w : Watch ι τ σ μ) : Prop :=
  Fresh good (fun id => w.targets[id]?) w.todo

theorem FreshWatch.mono {good good' : τ → σ → Prop} {w : Watch ι τ σ μ} (h : FreshWatch good w)
    (hle : ∀ target result, good target result → good' target result) : FreshWatch good' w :=
  Fresh.mono hle h

/-- A listener with nothing left to do shows good results. -/
theorem settled {good : τ → σ → Prop} {w : Watch ι τ σ μ} (hshows : f.FaithfulWatch w)
    (hfresh : FreshWatch good w) (htodo : w.todo = []) {id : ι} {target : τ} {previous : σ}
    (ht : w.targets[id]? = some (target, previous)) :
    good target previous ∧ f.shows (f.views w.sent id) previous := by
  unfold FaithfulWatch at hshows
  unfold FreshWatch at hfresh
  rw [htodo] at hshows hfresh
  exact ⟨hfresh id target previous ht, hshows id target previous ht⟩

/-- An idle listener tells its client of a new target, and evaluates it. -/
theorem FaithfulWatch.add {w w' : Watch ι τ σ μ} (h : f.FaithfulWatch w) (htodo : w.todo = [])
    {message : μ} {id : ι} {target : τ} {previous : σ} {initial : Bool}
    (hsent : w'.sent = w.sent)
    (htodo' : w'.todo = [.send message, .evaluate id target previous initial])
    (htargets : ∀ j, j ≠ id → w'.targets[j]? = w.targets[j]?)
    (hnew : ∀ view, f.shows (f.view id view message) previous)
    (hother : ∀ j, j ≠ id → ∀ view, f.view j view message = view) : f.FaithfulWatch w' := by
  unfold FaithfulWatch at h
  rw [htodo] at h
  unfold FaithfulWatch
  rw [htodo', hsent]
  show f.Faithful (fun j => f.view j (f.views w.sent j) message) _
    (evaluations [(id, target, previous)] initial)
  refine faithful_evaluations _ _ (by simp) ?_ ?_
  · intro entry hm
    obtain rfl := List.mem_singleton.mp hm
    exact hnew _
  · intro j target' previous' hj ht
    have hne : j ≠ id := fun he => hj (List.mem_singleton.mpr he)
    rw [htargets j hne] at ht
    rw [hother j hne]
    exact h j target' previous' ht

theorem FreshWatch.add {good : τ → σ → Prop} {w w' : Watch ι τ σ μ} (h : FreshWatch good w)
    (htodo : w.todo = []) {message : μ} {id : ι} {target : τ} {previous : σ} {initial : Bool}
    (htodo' : w'.todo = [.send message, .evaluate id target previous initial])
    (htargets : ∀ j, j ≠ id → w'.targets[j]? = w.targets[j]?) : FreshWatch good w' := by
  unfold FreshWatch at h
  rw [htodo] at h
  unfold FreshWatch
  rw [htodo']
  show Fresh good _ (evaluations [(id, target, previous)] initial : List (Op ι τ σ μ))
  refine fresh_evaluations _ _ fun j target' previous' hj ht => ?_
  rw [htargets j fun he => hj (List.mem_singleton.mpr he)] at ht
  exact h j target' previous' ht

/-- An idle listener drops targets, and tells its client. -/
theorem FaithfulWatch.drop {w w' : Watch ι τ σ μ} (h : f.FaithfulWatch w) (htodo : w.todo = [])
    {message : μ} (hsent : w'.sent = w.sent) (htodo' : w'.todo = [.send message])
    (htargets : ∀ (j : ι) (entry : τ × σ), w'.targets[j]? = some entry → w.targets[j]? = some entry)
    (hview : ∀ j view, f.view j view message = view) : f.FaithfulWatch w' := by
  unfold FaithfulWatch at h
  rw [htodo] at h
  unfold FaithfulWatch
  rw [htodo', hsent]
  intro j target previous ht
  dsimp only
  rw [hview]
  exact h j target previous (htargets j _ ht)

theorem FreshWatch.drop {good : τ → σ → Prop} {w w' : Watch ι τ σ μ} (h : FreshWatch good w)
    (htodo : w.todo = []) {message : μ} (htodo' : w'.todo = [.send message])
    (htargets : ∀ (j : ι) (entry : τ × σ), w'.targets[j]? = some entry →
      w.targets[j]? = some entry) : FreshWatch good w' := by
  unfold FreshWatch at h
  rw [htodo] at h
  unfold FreshWatch
  rw [htodo']
  exact fun j target previous ht => h j target previous (htargets j _ ht)

variable [LawfulEqOrd ι]

theorem getElem?_insert_eq_update (targets : ExtTreeMap ι (τ × σ)) (id : ι) (entry : τ × σ) :
    (fun j => (targets.insert id entry)[j]?) =
      Function.update (fun j => targets[j]?) id (some entry) := by
  funext j
  by_cases hj : j = id
  · subst hj
    rw [Function.update_self, ExtTreeMap.getElem?_insert_self]
  · rw [Function.update_of_ne hj]
    simp [ExtTreeMap.getElem?_insert, Ne.symm hj]

/-- A step of the listener keeps its views faithful. -/
theorem FaithfulWatch.advance {ε : Type} {valid : δ → Prop} (hf : f.Lawful valid)
    {read : τ → Except ε δ} (hvalid : ∀ target answer, read target = .ok answer → valid answer)
    {w w' : Watch ι τ σ μ} (h : f.FaithfulWatch w) (ha : f.advance read w = .ok w') :
    f.FaithfulWatch w' := by
  unfold FaithfulWatch at h
  unfold Feed.advance at ha
  split at ha
  · obtain rfl := Except.ok.inj ha
    exact h
  · rename_i message ops htodo
    obtain rfl := Except.ok.inj ha
    rw [htodo] at h
    rw [FaithfulWatch, views_concat]
    exact h
  · rename_i id target current ops htodo
    obtain rfl := Except.ok.inj ha
    rw [htodo] at h
    rw [FaithfulWatch, getElem?_insert_eq_update]
    exact h
  · rename_i id target previous initial ops htodo
    obtain ⟨answer, hanswer, rfl⟩ := exceptMap_eq_ok.mp ha
    rw [htodo] at h
    exact Faithful.emit hf h (hvalid target answer hanswer)

/-- While good results are read, a step of the listener keeps its targets fresh. -/
theorem FreshWatch.advance {ε : Type} {read : τ → Except ε δ} {good : τ → σ → Prop}
    {w w' : Watch ι τ σ μ}
    (hread : ∀ target answer, read target = .ok answer → good target (f.result answer))
    (h : FreshWatch good w) (ha : f.advance read w = .ok w') : FreshWatch good w' := by
  unfold FreshWatch at h
  unfold Feed.advance at ha
  split at ha
  · obtain rfl := Except.ok.inj ha
    exact h
  · rename_i message ops htodo
    obtain rfl := Except.ok.inj ha
    rw [htodo] at h
    exact h
  · rename_i id target current ops htodo
    obtain rfl := Except.ok.inj ha
    rw [htodo] at h
    rw [FreshWatch, getElem?_insert_eq_update]
    exact h
  · rename_i id target previous initial ops htodo
    obtain ⟨answer, hanswer, rfl⟩ := exceptMap_eq_ok.mp ha
    rw [htodo] at h
    exact Fresh.emit h (hread target answer hanswer)

theorem FaithfulWatch.refresh {w : Watch ι τ σ μ} (h : f.FaithfulWatch w) (htodo : w.todo = []) :
    f.FaithfulWatch (refresh w) := by
  unfold FaithfulWatch at h
  rw [htodo] at h
  refine faithful_evaluations (entries w) false (entries_nodup w) ?_ ?_
  · exact fun entry hm => h entry.1 entry.2.1 entry.2.2 (mem_entries.mp hm)
  · exact fun id target previous hn ht => absurd (mem_entries_fst ht) hn

theorem FreshWatch.refresh (good : τ → σ → Prop) (w : Watch ι τ σ μ) :
    FreshWatch good (refresh w) :=
  fresh_evaluations (entries w) false fun _ _ _ hn ht => absurd (mem_entries_fst ht) hn

end Steps

end Feed

end FirebaseEmu.Lib
