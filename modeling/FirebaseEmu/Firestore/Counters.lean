import FirebaseEmu.Firestore.Commits
import FirebaseEmu.Firestore.Masks
import FirebaseEmu.Lib.Totals

namespace FirebaseEmu.Firestore
open Lib
open Std (ExtTreeMap)

variable {β : Type} {codec : DocumentCodec β} {path : List String}

def ShowsCount (value : Value) (total : Int) : Prop :=
  ∃ n : Int64, value = .integerValue n ∧ n.toInt = total

/-- A transform adds an integer to the counter, or has nothing to do with it. -/
def CountingTransform (path : List String) (transform : FieldTransform) : Prop :=
  (fieldPath transform.fieldPath = .ok path ∧
    ∃ n, transform.transformType = some (.increment (.integerValue n))) ∨
  ∀ q, fieldPath transform.fieldPath = .ok q → Unrelated q path

/-- An update whose mask leaves the counter alone and whose transforms at most add to it. -/
structure CountingWrite (path : List String) (write : Write) : Prop where
  updates : ∃ document, write.operation = some (.update document)
  masked : ∃ mask : DocumentMask, write.updateMask = some mask ∧
    ∀ field ∈ mask.fieldPaths, ∀ q, fieldPath field = .ok q → Unrelated q path
  transforms : ∀ transform ∈ write.updateTransforms, CountingTransform path transform

/-- What a transform adds to the counter. -/
def amountOf (path : List String) (transform : FieldTransform) : Option Int :=
  match fieldPath transform.fieldPath, transform.transformType with
  | .ok q, some (.increment (.integerValue n)) => if q = path then some n.toInt else none
  | _, _ => none

/-- The amounts that the transforms of a write add to the counter, with what they are answered. -/
def additions (path : List String) (transforms : List FieldTransform) (results : List Value) :
    List (Int × Value) :=
  (transforms.zip results).filterMap fun entry =>
    (amountOf path entry.1).map fun amount => (amount, entry.2)

/-- The call does nothing to the counter but add to it. -/
def Call.Counts (service : FirestoreService β) (name : String) (path : List String)
    (call : Call) : Prop :=
  match call.request with
  | .createDocument request => createdName request (service.takenId request.documentId) ≠ name
  | .clearDatabase _ => False
  | request => ∀ write ∈ request.writes, writeName write = .ok name → CountingWrite path write

section Steps
variable {service service' : FirestoreService β} {name : String} {now : Timestamp}
  {writes : List Write} {before : Documents}

theorem WroteRows.before_eq {p p' : Persistence β} {database : String}
    (wrote : WroteRows codec p p' database writes now before)
    (hp : service.persistence = some p) (ht : Touched writes name) :
    before[name]? = documentNow codec service name := by
  rw [documentNow_sqlite codec hp, wrote.loaded name, if_pos ht]

end Steps

theorem ShowsCount.unique (value : Value) (n m : Int) (hn : ShowsCount value n)
    (hm : ShowsCount value m) : n = m := by
  obtain ⟨a, rfl, rfl⟩ := hn
  obtain ⟨b, hb, rfl⟩ := hm
  rw [Value.integerValue.inj hb]

end FirebaseEmu.Firestore
