import FirebaseEmu.Firestore.Names

namespace FirebaseEmu.Ui
open Lib Firestore

def validSegment (value : String) : Bool :=
  value ≠ "" && decide (value.utf8ByteSize ≤ 256) &&
    value.toList.all fun c => c.isAlphanum || c ∈ ['-', '.', '_', ':', '(', ')']

def validDocumentSegment (value : String) : Bool :=
  value ≠ "" && decide (value.utf8ByteSize ≤ 1500) && value ≠ "." && value ≠ ".." &&
    !value.toList.any fun c => c == '/' || c == '\x00'

/-- An answer with a status code of HTTP and a message. -/
structure ApiError where
  status : Nat
  message : String
  deriving DecidableEq

def badRequest (message : String) : ApiError := ⟨400, message⟩

def pathParts (path : String) : Option (List String) :=
  let parts := split '/' path
  if path.toList.head? ≠ some '/' && path.toList.getLast? ≠ some '/' &&
      parts.all validDocumentSegment then some parts
  else none

def databaseName (project database : String) : String :=
  "projects/" ++ project ++ "/databases/" ++ database

theorem validSegment_spec {value : String} (h : validSegment value = true) :
    value ≠ "" ∧ '/' ∉ value.toList := by
  simp only [validSegment, Bool.and_eq_true, decide_eq_true_eq, List.all_eq_true] at h
  refine ⟨h.1.1, fun hm => ?_⟩
  have hslash := h.2 '/' hm
  revert hslash
  decide

theorem validDocumentSegment_ne {value : String} (h : validDocumentSegment value = true) :
    value ≠ "" := by
  simp only [validDocumentSegment, Bool.and_eq_true, decide_eq_true_eq] at h
  exact h.1.1.1.1

/-- The documents of a database with valid segments have a prefix. -/
theorem startsWith_databaseName {project database : String} (hp : validSegment project = true)
    (hd : validSegment database = true) :
    databaseDocumentPrefix (databaseName project database) =
      .ok (databaseName project database ++ "/documents/") := by
  obtain ⟨hp, hpslash⟩ := validSegment_spec hp
  obtain ⟨hd, hdslash⟩ := validSegment_spec hd
  refine databaseDocumentPrefix_of_split hp hd ?_
  have hname : databaseName project database =
      join '/' ["projects", project, "databases", database] := by
    rw [join_cons '/' _ (by simp), join_cons '/' _ (by simp), join_cons '/' _ (by simp)]
    have hlast : join '/' [database] = database := by simp [join]
    rw [hlast, databaseName]
    simp only [← String.toList_inj, String.toList_append]
    simp
  rw [hname]
  apply split_join '/' (by simp)
  intro part hpart
  simp only [List.mem_cons, List.not_mem_nil, or_false] at hpart
  rcases hpart with rfl | rfl | rfl | rfl
  · decide
  · exact hpslash
  · decide
  · exact hdslash

end FirebaseEmu.Ui
