import FirebaseEmu.Lib.Entries
import FirebaseEmu.Lib.Json
import Mathlib.Data.String.Basic

namespace FirebaseEmu.Lib
namespace Json

mutual

/-- Objects inside objects have their entries in strict key order, as a `BTreeMap` does. -/
def Tidy : Json → Prop
  | object entries => KeyOrdered entries ∧ tidyEntries entries
  | _ => True

def tidyEntries : List (String × Json) → Prop
  | [] => True
  | (_, v) :: entries => Tidy v ∧ tidyEntries entries

end

theorem tidyEntries_iff (entries : List (String × Json)) :
    tidyEntries entries ↔ ∀ e ∈ entries, e.2.Tidy := by
  induction entries with
  | nil => simp [tidyEntries]
  | cons entry entries ih => simp [tidyEntries, ih]

@[simp] theorem tidy_object (entries : List (String × Json)) :
    (object entries).Tidy ↔ KeyOrdered entries ∧ ∀ e ∈ entries, e.2.Tidy := by
  rw [Tidy, tidyEntries_iff]

theorem Tidy.lookup {entries : List (String × Json)} (h : (object entries).Tidy) {key : String}
    {v : Json} (hv : entries.lookup key = some v) : v.Tidy :=
  ((tidy_object entries).mp h).2 _ (lookup_mem hv)

theorem Tidy.insertKey {entries : List (String × Json)} (h : (object entries).Tidy)
    (key : String) {v : Json} (hv : v.Tidy) : (object (insertKey key v entries)).Tidy := by
  obtain ⟨ho, ht⟩ := (tidy_object entries).mp h
  refine (tidy_object _).mpr ⟨ho.insertKey key v, fun e he => ?_⟩
  rcases mem_insertKey he with rfl | he
  · exact hv
  · exact ht e he

theorem Tidy.tail {key : String} {v : Json} {entries : List (String × Json)}
    (h : (object ((key, v) :: entries)).Tidy) : v.Tidy ∧ (object entries).Tidy := by
  obtain ⟨ho, ht⟩ := (tidy_object _).mp h
  exact ⟨ht (key, v) List.mem_cons_self,
    (tidy_object entries).mpr ⟨(KeyOrdered.cons_iff.mp ho).2, fun e he =>
      ht e (List.mem_cons_of_mem _ he)⟩⟩

def isObject : Json → Bool
  | object _ => true
  | _ => false

theorem isObject_iff {v : Json} : v.isObject = true ↔ ∃ entries, v = object entries := by
  cases v <;> simp [isObject]

/-- What a path of keys leads to. -/
def at? : List String → Json → Option Json
  | [], v => some v
  | key :: path, v => (v.find? key).bind (at? path)

/-- What is at the end of a path: an object, whatever it holds, or the value itself. -/
inductive Node where
  | object
  | leaf (value : Json)

def node : Json → Node
  | object _ => .object
  | v => .leaf v

/-- A value as the nodes its paths lead to. -/
def view (v : Json) (path : List String) : Option Node := (v.at? path).map node

@[simp] theorem view_nil (v : Json) : v.view [] = some v.node := rfl

theorem view_cons (v : Json) (key : String) (path : List String) :
    v.view (key :: path) = (v.find? key).bind (view · path) := by
  simp [view, at?, Option.map_bind]

theorem view_object (entries : List (String × Json)) (key : String) (path : List String) :
    (object entries).view (key :: path) = (entries.lookup key).bind (view · path) :=
  view_cons _ _ _

theorem view_append (v : Json) (path more : List String) :
    v.view (path ++ more) = (v.at? path).bind (view · more) := by
  induction path generalizing v with
  | nil => rfl
  | cons key path ih =>
    rw [List.cons_append, view_cons, at?, Option.bind_assoc]
    congr 1
    funext a
    exact ih a

theorem view_leaf {v : Json} (h : v.isObject = false) (key : String) (path : List String) :
    v.view (key :: path) = none := by
  rw [view_cons]
  cases v with
  | object entries => cases h
  | _ => rfl

theorem node_leaf {v : Json} (h : v.isObject = false) : v.node = .leaf v := by
  cases v with
  | object entries => cases h
  | _ => rfl

theorem node_eq_object {v : Json} : v.node = .object ↔ ∃ entries, v = object entries := by
  cases v <;> simp [node]

theorem node_eq_leaf {v w : Json} : v.node = .leaf w ↔ v = w ∧ v.isObject = false := by
  cases v <;> simp [node, isObject]

/-- Tidy values are told apart by the nodes their paths lead to. -/
theorem Tidy.ext {v w : Json} (hv : v.Tidy) (hw : w.Tidy) (h : ∀ path, v.view path = w.view path) :
    v = w := by
  have hroot : v.node = w.node := Option.some.inj (h [])
  cases v with
  | object as =>
    obtain ⟨bs, rfl⟩ := node_eq_object.mp hroot.symm
    refine congrArg object (KeyOrdered.ext ((tidy_object as).mp hv).1 ((tidy_object bs).mp hw).1
      fun key => ?_)
    have hkey : ∀ path, (as.lookup key).bind (view · path) = (bs.lookup key).bind (view · path) :=
      fun path => by simpa only [view_object] using h (key :: path)
    cases ha : as.lookup key with
    | none =>
      cases hb : bs.lookup key with
      | none => rfl
      | some b => simpa [ha, hb] using hkey []
    | some a =>
      cases hb : bs.lookup key with
      | none => simpa [ha, hb] using hkey []
      | some b =>
        have hsize : sizeOf a < sizeOf (object as) :=
          sizeOf_find? (show (object as).find? key = some a from ha)
        have hab : ∀ path, a.view path = b.view path := fun path => by
          simpa [ha, hb] using hkey path
        exact congrArg some (Tidy.ext (hv.lookup ha) (hw.lookup hb) hab)
  | _ => exact (node_eq_leaf.mp hroot.symm).1.symm
termination_by sizeOf v

/-! ### Up to the numbers that are equal -/

def Node.canonical : Node → Node
  | .object => .object
  | .leaf v => .leaf v.canonical

theorem canonical_object (entries : List (String × Json)) :
    (object entries).canonical = object (canonicalEntries entries) := by
  simp only [canonical]

theorem isObject_canonical (v : Json) : v.canonical.isObject = v.isObject := by
  cases v <;> simp [canonical, isObject]

theorem canonicalEntries_eq (entries : List (String × Json)) :
    canonicalEntries entries = entries.map fun e => (e.1, e.2.canonical) := by
  induction entries with
  | nil => simp [canonicalEntries]
  | cons entry entries ih => simp [canonicalEntries, ih]

theorem find?_canonical (key : String) (v : Json) :
    v.canonical.find? key = (v.find? key).map canonical := by
  cases v with
  | object entries =>
    rw [canonical_object, canonicalEntries_eq]
    simp only [find?]
    induction entries with
    | nil => rfl
    | cons entry entries ih =>
      rw [List.map_cons, List.lookup_cons, List.lookup_cons, ih]
      cases key == entry.1 <;> rfl
  | _ => simp [canonical, find?]

theorem node_canonical (v : Json) : v.canonical.node = v.node.canonical := by
  cases v <;> simp [canonical, node, Node.canonical]

theorem view_canonical (v : Json) (path : List String) :
    v.canonical.view path = (v.view path).map Node.canonical := by
  induction path generalizing v with
  | nil => simp [node_canonical]
  | cons key path ih =>
    rw [view_cons, view_cons, find?_canonical]
    cases v.find? key with
    | none => rfl
    | some a => exact ih a

theorem Tidy.canonical {v : Json} (h : v.Tidy) : v.canonical.Tidy := by
  cases v with
  | object entries =>
    obtain ⟨ho, ht⟩ := (tidy_object entries).mp h
    rw [canonical_object, canonicalEntries_eq, tidy_object]
    refine ⟨List.pairwise_map.mpr ho, fun e he => ?_⟩
    obtain ⟨d, hd, rfl⟩ := List.mem_map.mp he
    have hsize : sizeOf d.2 < sizeOf (object entries) := by
      have hlt := List.sizeOf_lt_of_mem hd
      have hsnd : sizeOf d.2 < sizeOf d := by cases d; simp +arith
      simp only [object.sizeOf_spec]
      omega
    exact Tidy.canonical (ht d hd)
  | _ => simp [Json.canonical, Tidy]
termination_by sizeOf v

/-- Two nodes are the same: both objects, or equal values. -/
def Node.same : Node → Node → Prop
  | .object, .object => True
  | .leaf v, .leaf w => v.eq w = true
  | _, _ => False

theorem Node.same_iff (x y : Node) : x.same y ↔ x.canonical = y.canonical := by
  cases x <;> cases y <;> simp [Node.same, Node.canonical, eq_iff]

theorem Node.same_refl (x : Node) : x.same x := (same_iff x x).mpr rfl

theorem Node.same_symm {x y : Node} (h : x.same y) : y.same x :=
  (same_iff y x).mpr ((same_iff x y).mp h).symm

theorem Node.same_trans {x y z : Node} (hxy : x.same y) (hyz : y.same z) : x.same z :=
  (same_iff x z).mpr (((same_iff x y).mp hxy).trans ((same_iff y z).mp hyz))

/-- Tidy values whose paths lead to the same nodes are equal. -/
theorem Tidy.eq_of_same {v w : Json} (hv : v.Tidy) (hw : w.Tidy)
    (h : ∀ path, (v.view path).map Node.canonical = (w.view path).map Node.canonical) :
    v.eq w = true := by
  rw [eq_iff]
  apply Tidy.ext hv.canonical hw.canonical
  intro path
  rw [view_canonical, view_canonical, h path]

end Json
end FirebaseEmu.Lib
