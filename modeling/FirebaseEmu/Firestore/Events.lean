import FirebaseEmu.Firestore.Values
import FirebaseEmu.Firestore.Writes
import Mathlib.Data.List.Nodup

namespace FirebaseEmu.Firestore
open Lib Std

/-- A document before and after a change, as a Firestore trigger sees it. -/
structure DocumentEvent where
  before : Option Document
  after : Option Document

/-- `before.map(|d| &d.fields) == after.map(|d| &d.fields)`. -/
def fieldsEqual (before after : Option Document) : Bool :=
  match before, after with
  | none, none => true
  | some before, some after => Value.eqFields before.fields after.fields
  | _, _ => false

def documentEvent (before after : Option Document) : List DocumentEvent :=
  if fieldsEqual before after then [] else [⟨before, after⟩]

/-- The loops shared by `documents_changed` and `document_outbox_records`: first the
documents there were, then those that are new. -/
def documentEvents (before after : Documents) : List DocumentEvent :=
  before.toList.flatMap (fun (name, old) => documentEvent (some old) after[name]?) ++
  after.toList.flatMap (fun (name, new) =>
    if before.contains name then [] else documentEvent none (some new))

/-- The direct events a mutation enqueues; nothing without a Functions runtime. -/
def documentChanged (runtime : Bool) (before after : Option Document) : List DocumentEvent :=
  if runtime then documentEvent before after else []

def documentsChanged (runtime : Bool) (before after : Documents) : List DocumentEvent :=
  if runtime then documentEvents before after else []

theorem fieldsEqual_iff {before after : Option Document} : fieldsEqual before after = true ↔
    before.map (fun document => Value.canonicalFields document.fields) =
      after.map (fun document => Value.canonicalFields document.fields) ∧
    ∀ document, before = some document → Value.hasNanFields document.fields = false := by
  cases before <;> cases after <;> simp [fieldsEqual, Value.eqFields_iff]

theorem fieldsEqual_congr {a b : Option Document}
    (h : a.map Document.fields = b.map Document.fields) (c : Option Document) :
    fieldsEqual a c = fieldsEqual b c := by
  cases a <;> cases b <;> cases c <;> simp_all [fieldsEqual]

/-- The names whose documents count as changed: those there were, then the new ones. -/
def changedNames (before after : Documents) : List String :=
  before.keys.filter (fun name => !fieldsEqual before[name]? after[name]?) ++
  after.keys.filter (fun name => !before.contains name)

theorem mem_changedNames {before after : Documents} {name : String} :
    name ∈ changedNames before after ↔ fieldsEqual before[name]? after[name]? = false := by
  rw [changedNames, List.mem_append, List.mem_filter, List.mem_filter, ExtTreeMap.mem_keys,
    ExtTreeMap.mem_keys, ExtTreeMap.mem_iff_isSome_getElem?, ExtTreeMap.mem_iff_isSome_getElem?,
    ExtTreeMap.contains_eq_isSome_getElem?]
  cases before[name]? <;> cases after[name]? <;> simp [fieldsEqual]

theorem changedNames_nodup (before after : Documents) : (changedNames before after).Nodup := by
  refine List.Nodup.append (before.nodup_keys.filter _) (after.nodup_keys.filter _) ?_
  intro name hb ha
  have hb := ExtTreeMap.mem_keys.mp (List.mem_filter.mp hb).1
  have ha := (List.mem_filter.mp ha).2
  simp [ExtTreeMap.contains_iff_mem.mpr hb] at ha

/-- The loops over two stores report one change for each name that counts as changed. -/
theorem documentEvents_eq (before after : Documents) :
    documentEvents before after =
      (changedNames before after).map fun name => ⟨before[name]?, after[name]?⟩ := by
  have hold : ∀ entry ∈ before.toList, before[entry.1]? = some entry.2 :=
    fun _ h => ExtTreeMap.mem_toList_iff_getElem?_eq_some.mp h
  have hnew : ∀ entry ∈ after.toList, after[entry.1]? = some entry.2 :=
    fun _ h => ExtTreeMap.mem_toList_iff_getElem?_eq_some.mp h
  rw [documentEvents, changedNames, List.map_append, ← ExtTreeMap.map_fst_toList_eq_keys,
    ← ExtTreeMap.map_fst_toList_eq_keys]
  congr 1
  · generalize before.toList = entries at hold
    induction entries with
    | nil => rfl
    | cons entry entries ih =>
      have ih := ih fun e h => hold e (List.mem_cons_of_mem _ h)
      have hentry := hold entry List.mem_cons_self
      rw [List.flatMap_cons, ih, List.map_cons, List.filter_cons, hentry]
      cases he : fieldsEqual (some entry.2) after[entry.1]? <;> simp [documentEvent, he, hentry]
  · generalize after.toList = entries at hnew
    induction entries with
    | nil => rfl
    | cons entry entries ih =>
      have ih := ih fun e h => hnew e (List.mem_cons_of_mem _ h)
      have hentry := hnew entry List.mem_cons_self
      rw [List.flatMap_cons, ih, List.map_cons, List.filter_cons]
      dsimp only
      rw [ExtTreeMap.contains_eq_isSome_getElem?]
      cases hb : before[entry.1]? <;> simp [hb, hentry, documentEvent, fieldsEqual]

end FirebaseEmu.Firestore
