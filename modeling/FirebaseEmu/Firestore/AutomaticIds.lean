import FirebaseEmu.Firestore.Creation
import FirebaseEmu.Firestore.StoredNames
import FirebaseEmu.Lib.Machine

namespace FirebaseEmu.Firestore
open Lib Std

/-- The last segment of a name. -/
def lastSegment (name : String) : String := (split '/' name).getLast?.getD ""

/-- Two counts never spell one identifier. -/
theorem autoDocumentId_injective {m n : Nat} (h : autoDocumentId m = autoDocumentId n) : m = n := by
  rw [autoDocumentId, autoDocumentId, ← String.toList_inj, String.toList_append,
    String.toList_append, String.toList_ofList, String.toList_ofList] at h
  have hread := congrArg (fun cs => Nat.ofDigitChars 10 cs 0) (List.append_cancel_left h)
  simpa [Nat.ofDigitChars_append] using hread

theorem lastSegment_createdName (request : CreateDocumentRequest) {documentId : String}
    (h : '/' ∉ documentId.toList) : lastSegment (createdName request documentId) = documentId := by
  rw [lastSegment, split_createdName, split_of_not_mem '/' h, ← List.append_assoc,
    List.getLast?_concat]
  rfl

/-- The name ends in an automatic identifier that has not been handed out yet. -/
def Ahead (counter : Nat) (name : String) : Prop :=
  ∃ n, counter < n ∧ lastSegment name = autoDocumentId n

theorem Ahead.mono {counter later : Nat} {name : String} (hle : counter ≤ later)
    (h : Ahead later name) : Ahead counter name := by
  obtain ⟨n, hn, hs⟩ := h
  exact ⟨n, Nat.lt_of_le_of_lt hle hn, hs⟩

variable {β : Type} (codec : DocumentCodec β)

def handleStep (service : FirestoreService β) (call : Call) : FirestoreService β :=
  (handle codec service call).2

/-- The request stores nothing under an identifier that is still to be handed out. -/
def StoresBehind (service : FirestoreService β) (call : Call) : Prop :=
  ∀ name ∈ call.request.stores, ¬ Ahead (idCounter service) name

/-- Nothing is stored under an identifier that is still to be handed out. -/
def NoneAhead (service : FirestoreService β) : Prop :=
  ∀ name, Stored service name → ¬ Ahead (idCounter service) name

section
variable {service : FirestoreService β}

theorem takenId_segment {requested : String} (h : requested = "") :
    '/' ∉ (takenId service requested).toList := by
  rw [takenId, if_pos h]
  exact autoDocumentId_segment _

theorem Created.noneAhead {service' : FirestoreService β} {request : CreateDocumentRequest}
    {document : Document} (h : Created service service' request document)
    (hi : NoneAhead service)
    (hs : ∀ name ∈ (Request.createDocument request).stores, ¬ Ahead (idCounter service) name) :
    NoneAhead service' := by
  have hle : idCounter service ≤ idCounter service' := by
    rw [h.counter]
    split <;> omega
  intro name hstored hahead
  rcases (h.stored name).mp hstored with rfl | hold
  · by_cases hid : request.documentId = ""
    · obtain ⟨n, hn, hlast⟩ := hahead
      rw [h.name, lastSegment_createdName request (takenId_segment hid), takenId,
        if_pos hid] at hlast
      rw [h.counter, if_pos hid, autoDocumentId_injective hlast] at hn
      exact Nat.lt_irrefl _ hn
    · refine hs document.name ?_ (hahead.mono hle)
      simp [Request.stores, hid, h.name, takenId]
  · exact hi name hold (hahead.mono hle)

theorem NoneAhead.step (hi : NoneAhead service) (call : Call) (hs : StoresBehind service call) :
    NoneAhead (handleStep codec service call) := by
  by_cases hc : ∀ request, call.request ≠ .createDocument request
  · have hkept := handle_kept codec service hc
    intro name hstored hahead
    rw [handleStep, hkept.counter] at hahead
    rcases hkept.stored name hstored with hold | ⟨hm, -⟩
    · exact hi name hold hahead
    · exact hs name hm hahead
  · push Not at hc
    obtain ⟨request, hc⟩ := hc
    obtain ⟨request', now, uuid⟩ := call
    obtain rfl : request' = .createDocument request := hc
    have hstep : handleStep codec service ⟨.createDocument request, now, uuid⟩ =
        (createDocument codec service request now).2 := rfl
    rw [hstep]
    rcases createDocument_outcome codec service request now with
      ⟨status, -, -, hsame, hle⟩ | ⟨document, -, hcreated⟩
    · intro name hstored hahead
      exact hi name ((hsame name).mp hstored) (hahead.mono hle)
    · exact hcreated.noneAhead hi hs

end

/-- The automatic identifier a call was answered with. -/
def handedOut (call : Call) (reply : Except Status Response) : List String :=
  match call.request, reply with
  | .createDocument request, .ok (.document document) =>
    if request.documentId = "" then [lastSegment document.name] else []
  | _, _ => []

end FirebaseEmu.Firestore
