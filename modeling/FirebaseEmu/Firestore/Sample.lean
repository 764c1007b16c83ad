import FirebaseEmu.Firestore.Handlers

namespace FirebaseEmu.Firestore
open Lib Std

/-! A small database for the concrete runs of the modules below. -/

def sampleDatabase : String := "projects/p/databases/d"

def otherDatabase : String := "projects/p/databases/e"

def sampleName (database id : String) : String := database ++ "/documents/items/" ++ id

def sampleTime (seconds : Int64) : Timestamp := ⟨seconds, 0⟩

/-- A codec whose blobs are the documents themselves. -/
def plainCodec : DocumentCodec Document := ⟨id, .ok, fun _ => rfl⟩

def sampleSet (name : String) (fields : Fields) : Write :=
  ⟨some (.update ⟨name, fields, none, none⟩), none, none, []⟩

def sampleDelete (name : String) (condition : Option Precondition) : Write :=
  ⟨some (.delete name), none, condition, []⟩

/-- An in-memory service with a Functions runtime, holding nothing. -/
def sampleMemory : FirestoreService Document := ⟨.empty, none, 0, true, []⟩

/-- A SQLite service that records events, holding nothing but the given outbox rows. -/
def sampleSqlite (outbox : List (OutboxRow Document)) : FirestoreService Document :=
  ⟨.empty, some ⟨∅, 0, outbox, outbox.length + 1, true⟩, 0, false, []⟩

end FirebaseEmu.Firestore
