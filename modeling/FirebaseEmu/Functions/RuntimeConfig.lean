import FirebaseEmu.Lib.JsonPaths
import FirebaseEmu.Lib.Results

namespace FirebaseEmu.Functions
open Lib

def conflict (path : String) : String :=
  "conflicting runtime config at `" ++ path ++ "` across codebases"

mutual

def mergeObjects (target source : List (String × Json)) (pre : String) :
    Except String (List (String × Json)) :=
  match source with
  | [] => .ok target
  | (key, value) :: source =>
    let path := if pre = "" then key else pre ++ "." ++ key
    (mergeEntry target key value path).bind fun target => mergeObjects target source pre

/-- One turn of the loop. -/
def mergeEntry (target : List (String × Json)) (key : String) (value : Json) (path : String) :
    Except String (List (String × Json)) :=
  match target.lookup key, value with
  | some (.object existing), .object incoming =>
    (mergeObjects existing incoming path).map fun merged => insertKey key (.object merged) target
  | some existing, incoming => if existing.eq incoming then .ok target else .error (conflict path)
  | none, incoming => .ok (insertKey key incoming target)

end

def validateObject (value : Json) (label : String) : Except String (List (String × Json)) :=
  match value with
  | .object entries => .ok entries
  | _ => .error (label ++ " must be a JSON object")

/-- One turn of the loop of `merge_runtime_configs`, on what a codebase's file reads as; a
codebase without the file has none. -/
def mergeConfig (result : List (String × Json)) :
    Option Json → Except String (List (String × Json))
  | none => .ok result
  | some value =>
    (validateObject value ".runtimeconfig.json").bind fun object => mergeObjects result object ""

def mergeRuntimeConfigs (configs : List (Option Json)) : Except String Json :=
  (configs.foldlM mergeConfig []).map .object

/-- The loop over sources that are all there and all objects. -/
def mergeAll (sources : List (List (String × Json))) : Except String (List (String × Json)) :=
  sources.foldlM (mergeObjects · · "") []

/-- A codebase without the file changes nothing, and the others' objects are merged in turn. -/
theorem mergeRuntimeConfigs_eq (configs : List (Option (List (String × Json)))) :
    mergeRuntimeConfigs (configs.map (Option.map .object)) =
      (mergeAll (configs.filterMap id)).map .object := by
  unfold mergeRuntimeConfigs mergeAll
  congr 1
  generalize ([] : List (String × Json)) = result
  induction configs generalizing result with
  | nil => rfl
  | cons config configs ih =>
    cases config with
    | none => exact ih result
    | some object =>
      rw [List.map_cons, List.foldlM_cons, List.filterMap_cons_some (f := id) rfl, List.foldlM_cons]
      change (mergeObjects result object "").bind _ = (mergeObjects result object "").bind _
      cases mergeObjects result object "" with
      | error message => rfl
      | ok merged => exact ih merged

/-- What is at each path of an object. -/
abbrev View := List String → Option Json.Node

/-- At a path both have, the two have the same. -/
def Agree (a b : View) : Prop := ∀ path x y, a path = some x → b path = some y → x.same y

/-- What a merge of two objects has at each path: what either has, the first one's first. -/
def join (a b : View) : View := fun path => (a path).or (b path)

theorem Agree.symm {a b : View} (h : Agree a b) : Agree b a :=
  fun path x y hx hy => Json.Node.same_symm (h path y x hy hx)

theorem join_some {a b : View} {path : List String} {x : Json.Node} (h : join a b path = some x) :
    a path = some x ∨ b path = some x := by
  rw [join, Option.or_eq_some_iff] at h
  exact h.imp_right And.right

theorem agree_join {a b c : View} (hab : Agree a b) :
    Agree (join a b) c ↔ Agree a c ∧ Agree b c := by
  constructor
  · intro h
    refine ⟨fun path x y hx hy => ?_, fun path x y hx hy => ?_⟩
    · apply h path x y _ hy
      rw [join, hx, Option.some_or]
    · cases ha : a path with
      | none =>
        apply h path x y _ hy
        rw [join, ha, Option.none_or, hx]
      | some z =>
        have hz : join a b path = some z := by rw [join, ha, Option.some_or]
        exact Json.Node.same_trans (Json.Node.same_symm (hab path z x ha hx)) (h path z y hz hy)
  · rintro ⟨hac, hbc⟩ path x y hx hy
    rcases join_some hx with hx | hx
    · exact hac path x y hx hy
    · exact hbc path x y hx hy

/-- What a merge of a target and a source with these views must come to. -/
inductive Merged (a b : View) : Except String (List (String × Json)) → Prop where
  | ok {merged : List (String × Json)} (agree : Agree a b) (tidy : (Json.object merged).Tidy)
      (view : (Json.object merged).view = join a b) : Merged a b (.ok merged)
  | error {message : String} (disagree : ¬ Agree a b) : Merged a b (.error message)

theorem view_entry (key k : String) (value : Json) (path : List String) :
    (Json.object [(key, value)]).view (k :: path) = if k = key then value.view path else none := by
  rw [Json.view_object, List.lookup_cons]
  by_cases h : k = key
  · simp [h]
  · simp [h, beq_false_of_ne h]

theorem agree_entry {target : List (String × Json)} {key : String} {value : Json} :
    Agree (Json.object target).view (Json.object [(key, value)]).view ↔
      ∀ existing, target.lookup key = some existing → Agree existing.view value.view := by
  constructor
  · intro h existing hl path x y hx hy
    apply h (key :: path) x y
    · rw [Json.view_object, hl, Option.bind_some, hx]
    · rw [view_entry, if_pos rfl, hy]
  · intro h path x y hx hy
    cases path with
    | nil =>
      obtain rfl := Option.some.inj hx
      obtain rfl := Option.some.inj hy
      exact trivial
    | cons k path =>
      rw [view_entry] at hy
      by_cases hk : k = key
      · rw [Json.view_object, hk] at hx
        obtain ⟨existing, hl, hx⟩ := Option.bind_eq_some_iff.mp hx
        exact h existing hl path x y hx (by rwa [if_pos hk] at hy)
      · rw [if_neg hk] at hy
        cases hy

/-- What one entry's merge comes to is told by its key alone. -/
theorem join_entry {target merged : List (String × Json)} {key : String} {value after : Json}
    (hother : ∀ k, k ≠ key → merged.lookup k = target.lookup k)
    (hafter : merged.lookup key = some after)
    (hview : ∀ path, after.view path =
      ((target.lookup key).bind (·.view path)).or (value.view path)) :
    (Json.object merged).view = join (Json.object target).view (Json.object [(key, value)]).view := by
  funext path
  cases path with
  | nil => rfl
  | cons k path =>
    rw [join, view_entry, Json.view_object, Json.view_object]
    by_cases hk : k = key
    · rw [hk, if_pos rfl, hafter, Option.bind_some, hview]
    · rw [if_neg hk, hother k hk, Option.or_none]

theorem leaves_of_eq {existing incoming : Json}
    (h : ¬ (existing.isObject = true ∧ incoming.isObject = true))
    (heq : existing.eq incoming = true) :
    existing.isObject = false ∧ incoming.isObject = false := by
  have hsame : existing.isObject = incoming.isObject := by
    rw [← Json.isObject_canonical existing, ← Json.isObject_canonical incoming,
      (Json.eq_iff _ _).mp heq]
  cases he : existing.isObject <;> simp_all

/-- Values that are not both objects agree when they are equal. -/
theorem agree_leaf {existing incoming : Json}
    (h : ¬ (existing.isObject = true ∧ incoming.isObject = true)) :
    Agree existing.view incoming.view ↔ existing.eq incoming = true := by
  constructor
  · intro hagree
    have hroot := hagree [] _ _ (Json.view_nil _) (Json.view_nil _)
    cases existing <;> cases incoming <;>
      simp_all [Json.node, Json.Node.same, Json.isObject]
  · intro heq path x y hx hy
    have hout := leaves_of_eq h heq
    cases path with
    | nil =>
      obtain rfl := Option.some.inj hx
      obtain rfl := Option.some.inj hy
      rw [Json.node_leaf hout.1, Json.node_leaf hout.2]
      exact heq
    | cons key path =>
      rw [Json.view_leaf hout.1] at hx
      cases hx

theorem insertKey_view {target : List (String × Json)} {key : String} {value after : Json}
    (hview : ∀ path, after.view path =
      ((target.lookup key).bind (·.view path)).or (value.view path)) :
    (Json.object (insertKey key after target)).view =
      join (Json.object target).view (Json.object [(key, value)]).view := by
  refine join_entry ?_ ?_ hview
  · intro k hk
    rw [lookup_insertKey, if_neg hk]
  · rw [lookup_insertKey, if_pos rfl]

/-- The first entry of an object and the rest of it have no key in common. -/
theorem source_cons {key : String} {value : Json} {source : List (String × Json)}
    (hs : (Json.object ((key, value) :: source)).Tidy) :
    Agree (Json.object source).view (Json.object [(key, value)]).view ∧
      (Json.object ((key, value) :: source)).view =
        join (Json.object [(key, value)]).view (Json.object source).view := by
  have hnone : source.lookup key = none := by
    cases hl : source.lookup key with
    | none => rfl
    | some v =>
      obtain ⟨hlt, -⟩ := KeyOrdered.cons_iff.mp ((Json.tidy_object _).mp hs).1
      exact absurd (hlt _ (Json.lookup_mem hl)) (lt_irrefl key)
  constructor
  · apply agree_entry.mpr
    intro existing hl
    rw [hnone] at hl
    cases hl
  · funext path
    cases path with
    | nil => rfl
    | cons k path =>
      rw [join, view_entry, Json.view_object, Json.view_object, lookup_cons_eq]
      by_cases hk : k = key
      · rw [if_pos hk, if_pos hk, hk, hnone, Option.bind_none, Option.or_none, Option.bind_some]
      · rw [if_neg hk, if_neg hk, Option.none_or]

theorem join_assoc (a b c : View) : join (join a b) c = join a (join b c) :=
  funext fun _ => Option.or_assoc

mutual

/-- A merge succeeds exactly when the two objects agree, and then has what either has. -/
theorem mergeObjects_merged (target source : List (String × Json)) (pre : String)
    (ht : (Json.object target).Tidy) (hs : (Json.object source).Tidy) :
    Merged (Json.object target).view (Json.object source).view
      (mergeObjects target source pre) := by
  match source, hs with
  | [], _ =>
    rw [mergeObjects]
    have hroot : ∀ path x, (Json.object []).view path = some x → path = [] := fun path x hx => by
      cases path with
      | nil => rfl
      | cons key path => cases hx
    refine .ok (fun _ x y hx hy => ?_) ht (funext fun path => ?_)
    · obtain rfl := hroot _ y hy
      obtain rfl := Option.some.inj hx
      obtain rfl := Option.some.inj hy
      exact trivial
    · cases path with
      | nil => rfl
      | cons key path => exact (Option.or_none).symm
  | (key, value) :: source, hs =>
    have hentry := mergeEntry_merged target key value
      (if pre = "" then key else pre ++ "." ++ key) ht hs.tail.1
    obtain ⟨hapart, hview⟩ := source_cons hs
    rw [mergeObjects, hview]
    cases hm : mergeEntry target key value (if pre = "" then key else pre ++ "." ++ key) with
    | error message =>
      rw [hm] at hentry
      cases hentry with
      | error hdis => exact .error fun h => hdis ((agree_join hapart.symm).mp h.symm).1.symm
    | ok merged =>
      rw [hm] at hentry
      cases hentry with
      | ok hagree htidy hmerged =>
        have hrest := mergeObjects_merged merged source pre htidy hs.tail.2
        rw [hmerged] at hrest
        change Merged _ _ (mergeObjects merged source pre)
        -- the rest of the source agrees with the entry, so only the target matters
        have hiff : Agree (join (Json.object target).view (Json.object [(key, value)]).view)
            (Json.object source).view ↔ Agree (Json.object target).view
              (join (Json.object [(key, value)]).view (Json.object source).view) := by
          rw [agree_join hagree]
          constructor
          · exact fun h => ((agree_join hapart.symm).mpr ⟨hagree.symm, h.1.symm⟩).symm
          · exact fun h => ⟨((agree_join hapart.symm).mp h.symm).2.symm, hapart.symm⟩
        cases hrest' : mergeObjects merged source pre with
        | error message =>
          rw [hrest'] at hrest
          cases hrest with
          | error hdis => exact .error (mt hiff.mpr hdis)
        | ok result =>
          rw [hrest'] at hrest
          cases hrest with
          | ok hagree' htidy' hview' =>
            exact .ok (hiff.mp hagree') htidy' (hview'.trans (join_assoc _ _ _))
termination_by sizeOf source

theorem mergeEntry_merged (target : List (String × Json)) (key : String) (value : Json)
    (path : String) (ht : (Json.object target).Tidy) (hv : value.Tidy) :
    Merged (Json.object target).view (Json.object [(key, value)]).view
      (mergeEntry target key value path) := by
  unfold mergeEntry
  split
  · rename_i existing incoming hl
    have he : (Json.object existing).Tidy := ht.lookup hl
    have hinner := mergeObjects_merged existing incoming path he hv
    have hiff : Agree (Json.object target).view (Json.object [(key, .object incoming)]).view ↔
        Agree (Json.object existing).view (Json.object incoming).view := by
      rw [agree_entry, hl]
      simp
    cases hm : mergeObjects existing incoming path with
    | error message =>
      rw [hm] at hinner
      cases hinner with
      | error hdis => exact .error (mt hiff.mp hdis)
    | ok merged =>
      rw [hm] at hinner
      cases hinner with
      | ok hagree htidy hview =>
        refine .ok (hiff.mpr hagree) (ht.insertKey key htidy) (insertKey_view fun q => ?_)
        rw [hview, hl]
        rfl
  · rename_i value _ _ existing hl hnot
    have hout : ¬ (existing.isObject = true ∧ value.isObject = true) := by
      rintro ⟨he, hi⟩
      obtain ⟨existing', rfl⟩ := Json.isObject_iff.mp he
      obtain ⟨incoming', rfl⟩ := Json.isObject_iff.mp hi
      exact hnot existing' incoming' rfl rfl
    have hiff : Agree (Json.object target).view (Json.object [(key, value)]).view ↔
        existing.eq value = true := by
      rw [agree_entry, ← agree_leaf hout, hl]
      simp
    split
    · rename_i heq
      refine .ok (hiff.mpr heq) ht (join_entry (fun _ _ => rfl) hl fun q => ?_)
      rw [hl, Option.bind_some]
      cases q with
      | nil => rfl
      | cons k q => rw [Json.view_leaf (leaves_of_eq hout heq).2, Option.or_none]
    · rename_i hne
      exact .error (mt hiff.mp hne)
  · rename_i incoming hl
    refine .ok (agree_entry.mpr fun existing he => ?_) (ht.insertKey key hv)
      (insertKey_view fun q => ?_)
    · rw [hl] at he
      cases he
    · rw [hl]
      rfl
termination_by sizeOf value

end

/-- An object that is nothing but its sources put together. -/
structure Gathers (sources : List (List (String × Json))) (result : List (String × Json)) :
    Prop where
  tidy : (Json.object result).Tidy
  has : ∀ s ∈ sources, ∀ path x, (Json.object s).view path = some x →
    ∃ y, (Json.object result).view path = some y ∧ x.same y
  sourced : ∀ key path x, (Json.object result).view (key :: path) = some x →
    ∃ s ∈ sources, (Json.object s).view (key :: path) = some x

namespace Gathers

variable {sources : List (List (String × Json))} {result : List (String × Json)}

theorem empty : Gathers [] [] where
  tidy := (Json.tidy_object []).mpr ⟨.nil, by simp⟩
  has := by simp
  sourced := by simp [Json.view_object]

theorem agree (h : Gathers sources result) {s : List (String × Json)} (hs : s ∈ sources) :
    Agree (Json.object result).view (Json.object s).view := fun path x y hx hy => by
  obtain ⟨z, hz, hsame⟩ := h.has s hs path y hy
  obtain rfl : x = z := Option.some.inj (hx.symm.trans hz)
  exact Json.Node.same_symm hsame

theorem sources_agree (h : Gathers sources result) {s t : List (String × Json)}
    (hs : s ∈ sources) (ht : t ∈ sources) :
    Agree (Json.object s).view (Json.object t).view := fun path x y hx hy => by
  obtain ⟨z, hz, hxz⟩ := h.has s hs path x hx
  exact Json.Node.same_trans hxz (h.agree ht path z y hz hy)

theorem step (h : Gathers sources result) {s merged : List (String × Json)}
    (hagree : Agree (Json.object result).view (Json.object s).view)
    (htidy : (Json.object merged).Tidy)
    (hview : (Json.object merged).view = join (Json.object result).view (Json.object s).view) :
    Gathers (sources ++ [s]) merged where
  tidy := htidy
  has := by
    intro t ht path x hx
    rw [hview]
    rcases List.mem_append.mp ht with ht | ht
    · obtain ⟨y, hy, hsame⟩ := h.has t ht path x hx
      exact ⟨y, by rw [join, hy, Option.some_or], hsame⟩
    · obtain rfl := List.mem_singleton.mp ht
      cases hr : (Json.object result).view path with
      | none => exact ⟨x, by rw [join, hr, Option.none_or, hx], x.same_refl⟩
      | some y => exact ⟨y, by rw [join, hr, Option.some_or], Json.Node.same_symm (hagree path y x hr hx)⟩
  sourced := by
    intro key path x hx
    rw [hview] at hx
    rcases join_some hx with hx | hx
    · obtain ⟨t, ht, hx⟩ := h.sourced key path x hx
      exact ⟨t, List.mem_append_left _ ht, hx⟩
    · exact ⟨s, by simp, hx⟩

/-- A source that disagrees with what was gathered disagrees with one of its sources. -/
theorem disagree (h : Gathers sources result) {s : List (String × Json)}
    (hdis : ¬ Agree (Json.object result).view (Json.object s).view) :
    ∃ t ∈ sources, ¬ Agree (Json.object t).view (Json.object s).view := by
  by_contra hall
  apply hdis
  intro path x y hx hy
  cases path with
  | nil =>
    obtain rfl := Option.some.inj hx
    obtain rfl := Option.some.inj hy
    exact trivial
  | cons key path =>
    obtain ⟨t, ht, hx⟩ := h.sourced key path x hx
    by_contra hne
    exact hall ⟨t, ht, fun hts => hne (hts (key :: path) x y hx hy)⟩

theorem perm (h : Gathers sources result) {others : List (List (String × Json))}
    (hp : sources.Perm others) : Gathers others result where
  tidy := h.tidy
  has := fun s hs => h.has s (hp.mem_iff.mpr hs)
  sourced := fun key path x hx => by
    obtain ⟨s, hs, hx⟩ := h.sourced key path x hx
    exact ⟨s, hp.mem_iff.mp hs, hx⟩

theorem view_iff (h : Gathers sources result) {other : List (String × Json)}
    (h' : Gathers sources other) {path : List String} {x : Json.Node}
    (hx : (Json.object result).view path = some x) :
    ∃ y, (Json.object other).view path = some y ∧ x.same y := by
  cases path with
  | nil => exact ⟨.object, rfl, by obtain rfl := Option.some.inj hx; trivial⟩
  | cons key path =>
    obtain ⟨s, hs, hx⟩ := h.sourced key path x hx
    exact h'.has s hs _ x hx

/-- What is gathered from sources is determined by them, up to equal numbers. -/
theorem unique (h : Gathers sources result) {other : List (String × Json)}
    (h' : Gathers sources other) : (Json.object result).eq (.object other) = true := by
  apply Json.Tidy.eq_of_same h.tidy h'.tidy
  intro path
  cases hx : (Json.object result).view path with
  | some x =>
    obtain ⟨y, hy, hsame⟩ := h.view_iff h' hx
    rw [hy, Option.map_some, Option.map_some, (Json.Node.same_iff x y).mp hsame]
  | none =>
    cases hy : (Json.object other).view path with
    | none => rfl
    | some y =>
      obtain ⟨x, hx', -⟩ := h'.view_iff h hy
      rw [hx] at hx'
      cases hx'

/-- Merging a source again changes nothing. -/
theorem merge_again (h : Gathers sources result) {s : List (String × Json)} (hs : s ∈ sources)
    (hst : (Json.object s).Tidy) (pre : String) : mergeObjects result s pre = .ok result := by
  have hmerged := mergeObjects_merged result s pre h.tidy hst
  cases hm : mergeObjects result s pre with
  | error message =>
    rw [hm] at hmerged
    cases hmerged with
    | error hdis => exact absurd (h.agree hs) hdis
  | ok merged =>
    rw [hm] at hmerged
    cases hmerged with
    | ok hagree htidy hview =>
      have hsame : Json.object merged = Json.object result := by
        apply Json.Tidy.ext htidy h.tidy
        intro path
        rw [hview, join]
        cases hx : (Json.object s).view path with
        | none => rw [Option.or_none]
        | some x =>
          obtain ⟨y, hy, -⟩ := h.has s hs path x hx
          rw [hy, Option.some_or]
      rw [Json.object.inj hsame]

end Gathers

/-- The loop gathers its sources, or two of them disagree. -/
theorem mergeAll_from {done : List (List (String × Json))} {result : List (String × Json)}
    (h : Gathers done result) (sources : List (List (String × Json)))
    (ht : ∀ s ∈ sources, (Json.object s).Tidy) :
    (∃ r, sources.foldlM (mergeObjects · · "") result = .ok r ∧ Gathers (done ++ sources) r) ∨
    (∃ message, sources.foldlM (mergeObjects · · "") result = .error message ∧
      ∃ s ∈ done ++ sources, ∃ t ∈ done ++ sources,
        ¬ Agree (Json.object s).view (Json.object t).view) := by
  induction sources generalizing done result with
  | nil => exact .inl ⟨result, rfl, by rwa [List.append_nil]⟩
  | cons s sources ih =>
    have hmerged := mergeObjects_merged result s "" h.tidy (ht s List.mem_cons_self)
    rw [List.foldlM_cons]
    cases hm : mergeObjects result s "" with
    | error message =>
      rw [hm] at hmerged
      cases hmerged with
      | error hdis =>
        obtain ⟨t, hmem, hts⟩ := h.disagree hdis
        exact .inr ⟨message, rfl, t, by simp [hmem], s, by simp, hts⟩
    | ok merged =>
      rw [hm] at hmerged
      cases hmerged with
      | ok hagree htidy hview =>
        have hrest := ih (h.step hagree htidy hview) fun t hmem => ht t (List.mem_cons_of_mem _ hmem)
        rwa [List.append_assoc] at hrest

theorem mergeAll_spec (sources : List (List (String × Json)))
    (ht : ∀ s ∈ sources, (Json.object s).Tidy) :
    (∃ r, mergeAll sources = .ok r ∧ Gathers sources r) ∨
    (∃ message, mergeAll sources = .error message ∧ ∃ s ∈ sources, ∃ t ∈ sources,
      ¬ Agree (Json.object s).view (Json.object t).view) :=
  mergeAll_from .empty sources ht

/-- Every value of the source is in the target at its path, where an object may have got more
entries. -/
def Contains (target source : Json) : Prop :=
  ∀ path v, source.at? path = some v → ∃ w, target.at? path = some w ∧
    (v.eq w = true ∨ v.isObject = true ∧ w.isObject = true)

/-- A value that holds no entries to go on to. -/
def IsLeaf (v : Json) : Prop := ∀ entries, v = .object entries → entries = []

theorem Gathers.contains {sources : List (List (String × Json))} {result : List (String × Json)}
    (h : Gathers sources result) {s : List (String × Json)} (hs : s ∈ sources) :
    Contains (.object result) (.object s) := by
  intro path v hv
  obtain ⟨y, hy, hsame⟩ := h.has s hs path v.node (by rw [Json.view, hv, Option.map_some])
  obtain ⟨w, hw, rfl⟩ := Option.map_eq_some_iff.mp hy
  refine ⟨w, hw, ?_⟩
  cases hvo : v.isObject with
  | false =>
    rw [Json.node_leaf hvo] at hsame
    cases hwo : w.isObject with
    | false =>
      rw [Json.node_leaf hwo] at hsame
      exact .inl hsame
    | true =>
      obtain ⟨entries, rfl⟩ := Json.isObject_iff.mp hwo
      exact False.elim hsame
  | true =>
    obtain ⟨entries, rfl⟩ := Json.isObject_iff.mp hvo
    cases hwo : w.isObject with
    | false =>
      rw [Json.node_leaf hwo] at hsame
      exact False.elim hsame
    | true => exact .inr ⟨rfl, rfl⟩

theorem Gathers.leaf {sources : List (List (String × Json))} {result : List (String × Json)}
    (h : Gathers sources result) {path : List String} {w : Json} (hpath : path ≠ [])
    (hw : (Json.object result).at? path = some w) (hleaf : IsLeaf w) :
    ∃ s ∈ sources, (Json.object s).at? path = some w := by
  obtain ⟨key, path, rfl⟩ := List.exists_cons_of_ne_nil hpath
  have hview : (Json.object result).view (key :: path) = some w.node := by
    rw [Json.view, hw, Option.map_some]
  obtain ⟨s, hs, hx⟩ := h.sourced key path _ hview
  obtain ⟨v, hv, hnode⟩ := Option.map_eq_some_iff.mp hx
  refine ⟨s, hs, ?_⟩
  cases hwo : w.isObject with
  | false =>
    rw [Json.node_leaf hwo] at hnode
    rw [hv, (Json.node_eq_leaf.mp hnode).1]
  | true =>
    obtain ⟨entries, rfl⟩ := Json.isObject_iff.mp hwo
    obtain rfl := hleaf entries rfl
    obtain ⟨entries, rfl⟩ := Json.node_eq_object.mp hnode
    -- an entry of the source's object would be one of the result's
    cases entries with
    | nil => exact hv
    | cons entry entries =>
      obtain ⟨l, v⟩ := entry
      obtain ⟨y, hy, -⟩ := h.has s hs (key :: path ++ [l]) v.node (by
        rw [Json.view_append, hv, Option.bind_some, Json.view_object]
        simp)
      rw [Json.view_append, hw] at hy
      cases hy

/-- The order of the codebases does not matter: it decides neither whether their configs merge
nor what they merge to, which is the configs put together. -/
theorem merge_order_free {sources others : List (List (String × Json))}
    (ht : ∀ s ∈ sources, (Json.object s).Tidy) (hp : sources.Perm others) :
    ((∃ r, mergeAll sources = .ok r) ↔ ∃ r, mergeAll others = .ok r) ∧
    ∀ r, mergeAll sources = .ok r →
      (∀ r', mergeAll others = .ok r' → (Json.object r).eq (.object r') = true) ∧
      (∀ s ∈ sources, Contains (.object r) (.object s)) ∧
      (∀ path w, path ≠ [] → (Json.object r).at? path = some w → IsLeaf w →
        ∃ s ∈ sources, (Json.object s).at? path = some w) ∧
      ∀ s ∈ sources, ∀ pre, mergeObjects r s pre = .ok r := by
  have ht' : ∀ s ∈ others, (Json.object s).Tidy := fun s hs => ht s (hp.mem_iff.mpr hs)
  rcases mergeAll_spec sources ht with ⟨r, hr, hg⟩ | ⟨message, he, s, hs, t, hmem, hdis⟩
  · rcases mergeAll_spec others ht' with ⟨r', hr', hg'⟩ | ⟨message, -, s, hs, t, hmem, hdis⟩
    · refine ⟨⟨fun _ => ⟨r', hr'⟩, fun _ => ⟨r, hr⟩⟩, fun r₁ hr₁ => ?_⟩
      obtain rfl : r = r₁ := Except.ok.inj (hr.symm.trans hr₁)
      refine ⟨fun r₂ hr₂ => ?_, fun s hs => hg.contains hs, fun path w hpath hw hleaf =>
        hg.leaf hpath hw hleaf, fun s hs pre => hg.merge_again hs (ht s hs) pre⟩
      obtain rfl : r' = r₂ := Except.ok.inj (hr'.symm.trans hr₂)
      exact (hg.perm hp).unique hg'
    · exact absurd ((hg.perm hp).sources_agree hs hmem) hdis
  · rcases mergeAll_spec others ht' with ⟨r', hr', hg'⟩ | ⟨message', he', -⟩
    · exact absurd ((hg'.perm hp.symm).sources_agree hs hmem) hdis
    · refine ⟨⟨fun ⟨r, hr⟩ => ?_, fun ⟨r, hr⟩ => ?_⟩, fun r hr => ?_⟩
      · rw [he] at hr
        cases hr
      · rw [he'] at hr
        cases hr
      · rw [he] at hr
        cases hr

def webConfig : List (String × Json) :=
  [("service", .object [("nested", .object [("enabled", .bool true)]), ("url", .string "local")])]

def uploadsConfig : List (String × Json) :=
  [("other", .string "value"), ("service", .object [("nested", .object [("limit", .null)])])]

/-- Two codebases that share a nested object merge to one config in either order. -/
theorem merge_order_free_sample :
    (∃ r, mergeAll [webConfig, uploadsConfig] = .ok r ∧ r ≠ []) ∧
    (∃ r, mergeAll [uploadsConfig, webConfig] = .ok r) ∧
    ∀ r, mergeAll [webConfig, uploadsConfig] = .ok r → ∀ r',
      mergeAll [uploadsConfig, webConfig] = .ok r' → (Json.object r).eq (.object r') = true := by
  have ht : ∀ s ∈ [webConfig, uploadsConfig], (Json.object s).Tidy := by
    simp only [webConfig, uploadsConfig, KeyOrdered, Json.Tidy, Json.tidyEntries, List.mem_cons,
      List.not_mem_nil, or_false, forall_eq_or_imp, forall_eq, List.pairwise_cons,
      List.Pairwise.nil, and_true, implies_true, false_implies]
    decide
  have hfree := merge_order_free ht (.swap uploadsConfig webConfig [])
  exact ⟨⟨_, rfl, List.cons_ne_nil _ _⟩, hfree.1.mp ⟨_, rfl⟩, fun r hr => (hfree.2 r hr).1⟩

end FirebaseEmu.Functions
