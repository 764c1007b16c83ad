import FirebaseEmu.Firestore.Agreement
import FirebaseEmu.Firestore.Tables
import FirebaseEmu.Firestore.Versions

namespace FirebaseEmu.Firestore
open Lib Std

variable {β : Type} {codec : DocumentCodec β}

/-- What an accepted commit does, on either backend. -/
structure Committed (codec : DocumentCodec β) (service service' : FirestoreService β)
    (writes : List Write) (now : Timestamp) : Prop where
  others : ∀ name, (∀ write ∈ writes, writeName write ≠ .ok name) →
    documentNow codec service' name = documentNow codec service name
  written : ∀ earlier write later name, writes = earlier ++ write :: later →
    writeName write = .ok name → (∀ other ∈ earlier, writeName other ≠ .ok name) →
    (∀ other ∈ later, writeName other ≠ .ok name) →
    ∃ result, writeDocument (documentNow codec service name) write now =
      .ok (result, documentNow codec service' name)

/-- Writes that are all accepted, on any map that agrees with the documents they name. -/
theorem Committed.of_outcomes {service service' : FirestoreService β} {writes : List Write}
    {now : Timestamp} (before : Documents)
    (hall : (allOk ((writeOps now).outcomes before writes)).isOk)
    (hbefore : ∀ write ∈ writes, ∀ name, writeName write = .ok name →
      before[name]? = documentNow codec service name)
    (hafter : ∀ name, documentNow codec service' name =
      (writeOps now).entryAfter name (documentNow codec service name) writes) :
    Committed codec service service' writes now := by
  constructor
  · intro name hno
    rw [hafter name]
    exact KeyedOps.entryAfter_unnamed hno _
  · rintro earlier write later name rfl hname hearlier hlater
    obtain ⟨result, hwrite⟩ := KeyedOps.after_last ((allOk_isOk _).mp hall) hname hlater
    refine ⟨result, ?_⟩
    rw [KeyedOps.entryAfter_unnamed hearlier, KeyedOps.after_getElem?,
      hbefore write (by simp) name hname, ← hafter name] at hwrite
    exact hwrite

/-- Where no two writes name one document, each is made to the document as it was before. -/
theorem Committed.of_mem {service service' : FirestoreService β} {writes : List Write}
    {now : Timestamp} (h : Committed codec service service' writes now)
    (hnodup : (writes.map writeName).Nodup) {write : Write} (hm : write ∈ writes) {name : String}
    (hname : writeName write = .ok name) :
    ∃ result, writeDocument (documentNow codec service name) write now =
      .ok (result, documentNow codec service' name) := by
  obtain ⟨earlier, later, rfl⟩ := List.append_of_mem hm
  rw [List.map_append, List.map_cons, List.nodup_append, List.nodup_cons] at hnodup
  obtain ⟨-, ⟨hlater, -⟩, hapart⟩ := hnodup
  refine h.written earlier write later name rfl hname ?_ ?_
  · intro other hother heq
    exact hapart _ (List.mem_map_of_mem hother) _ List.mem_cons_self (heq.trans hname.symm)
  · intro other hother heq
    exact hlater (List.mem_map.mpr ⟨other, hother, heq.trans hname.symm⟩)

/-- A commit is refused with nothing changed, or does what its writes say. -/
theorem commit_cases (codec : DocumentCodec β) (service : FirestoreService β)
    (request : CommitRequest) (now : Timestamp) :
    (∃ status, commit codec service request now = (.error status, service)) ∨
    ∃ response service', commit codec service request now = (.ok response, service') ∧
      Committed codec service service' request.writes now := by
  cases hp : service.persistence with
  | none =>
    rcases commit_memory codec service hp request now with
      ⟨status, hc, -⟩ | ⟨results, service', hc, -, hall, effect⟩
    · exact .inl ⟨status, hc⟩
    · refine .inr ⟨_, service', hc, .of_outcomes service.store.documents ?_ ?_ ?_⟩
      · rw [hall]
        rfl
      · intro write _ name _
        rw [documentNow_memory codec hp]
      · exact effect.documentNow_eq hp
  | some p =>
    rcases commit_sqlite codec hp request now with
      ⟨status, hc, -⟩ | ⟨before, p', service', hc, -, hall, wrote, hp', -⟩
    · exact .inl ⟨status, hc⟩
    · refine .inr ⟨_, service', hc, .of_outcomes before hall ?_ (wrote.documentNow_eq hp hp')⟩
      intro write hwrite name hname
      rw [wrote.loaded name, if_pos ⟨write, hwrite, hname⟩, documentNow_sqlite codec hp]

/-- An accepted update without transforms stores the merged document. -/
theorem writeDocument_plain {existing : Option Document} {document : Document}
    {mask : Option DocumentMask} {condition : Option Precondition} {now : Timestamp}
    {result : WriteResult} {after : Option Document}
    (h : writeDocument existing ⟨some (.update document), mask, condition, []⟩ now =
      .ok (result, after)) :
    checkPrecondition existing condition = .ok () ∧
      ∃ merged stored, mergeDocument existing document mask = .ok merged ∧
        after = some stored ∧ stored.fields = merged.fields := by
  simp only [writeDocument, bind, Except.bind, pure, Except.pure, applyUpdateTransforms] at h
  split at h
  · cases h
  · split at h
    · cases h
    · rename_i hcondition
      split at h
      · cases h
      · rename_i merged hmerged
        obtain ⟨-, rfl⟩ := Prod.mk.inj (Except.ok.inj h)
        exact ⟨hcondition, merged, _, hmerged, rfl, rfl⟩

section Listing
variable {service : FirestoreService β} {table : Documents}

theorem Holds.documentNow_eq (h : Holds codec service table) (name : String) :
    documentNow codec service name = table[name]? := by
  cases hp : service.persistence with
  | none =>
    rw [holds_memory codec hp] at h
    rw [documentNow_memory codec hp, h]
  | some p =>
    rw [holds_sqlite codec hp] at h
    rw [documentNow_sqlite codec hp, h.stored]

/-- The documents of a database are listed in the order of their names. -/
theorem Holds.databaseDocuments_eq (h : Holds codec service table) {database pre : String}
    (hpre : databaseDocumentPrefix database = .ok pre) :
    databaseDocuments codec service database =
      .ok ((table.toList.filter fun entry => startsWith entry.1 pre).map Prod.snd) := by
  cases hp : service.persistence with
  | none =>
    rw [holds_memory codec hp] at h
    rw [databaseDocuments_memory hp hpre, h]
  | some p =>
    rw [holds_sqlite codec hp] at h
    exact h.databaseDocuments_eq hp hpre

/-- The documents of a database are listed, each of them once. -/
theorem Tabled.databaseDocuments_spec (h : Tabled codec service) {database pre : String}
    (hpre : databaseDocumentPrefix database = .ok pre) :
    ∃ docs, databaseDocuments codec service database = .ok docs ∧
      (docs.map Document.name).Nodup ∧
      (∀ d ∈ docs, documentNow codec service d.name = some d) ∧
      ∀ name d, documentNow codec service name = some d → startsWith name pre = true →
        d ∈ docs ∧ d.name = name := by
  obtain ⟨table, hn, ht⟩ := h
  refine ⟨_, ht.databaseDocuments_eq hpre, ?_, ?_, ?_⟩
  · exact hn.nodup_scanned.sublist ((List.filter_sublist.map _).map _)
  · intro d hd
    obtain ⟨entry, he, rfl⟩ := List.mem_map.mp hd
    have hstored := ExtTreeMap.mem_toList_iff_getElem?_eq_some.mp (List.mem_filter.mp he).1
    rw [ht.documentNow_eq, hn _ _ hstored]
    exact hstored
  · intro name d hd hname
    rw [ht.documentNow_eq] at hd
    refine ⟨List.mem_map.mpr ⟨(name, d), List.mem_filter.mpr ⟨?_, hname⟩, rfl⟩, hn name d hd⟩
    exact ExtTreeMap.mem_toList_iff_getElem?_eq_some.mpr hd

end Listing

/-- Every stored document has the time of its last write. -/
def Stamped (codec : DocumentCodec β) (service : FirestoreService β) : Prop :=
  ∀ name document, documentNow codec service name = some document →
    ∃ time, document.updateTime = some time

theorem Stamped.handle {service : FirestoreService β} (h : Stamped codec service) (call : Call) :
    Stamped codec (Firestore.handle codec service call).2 := by
  intro name document hd
  rcases (handle_versioned service call : Versioned codec _ _ _) name with
    hsame | hnone | ⟨new, hnew, -, hv⟩
  · exact h name document (hsame ▸ hd)
  · rw [hnone] at hd
    cases hd
  · obtain rfl := Option.some.inj (hnew.symm.trans hd)
    exact ⟨call.now, hv.updateTime⟩

theorem Stamped.run {service : FirestoreService β} (h : Stamped codec service)
    (calls : List Call) : Stamped codec (run codec service calls) := by
  induction calls generalizing service with
  | nil => exact h
  | cons call calls ih => exact ih (h.handle call)

/-- No call reads a time at which a stored document was last written. -/
def Unreused (codec : DocumentCodec β) (service : FirestoreService β) (calls : List Call) : Prop :=
  ∀ name document, documentNow codec service name = some document →
    ∀ call ∈ calls, document.updateTime ≠ some call.now

/-- A document after calls is the one it was, or a version of one of them. -/
theorem run_version {service : FirestoreService β} {calls : List Call} {name : String}
    {later : Document} (hl : documentNow codec (run codec service calls) name = some later) :
    documentNow codec service name = some later ∨
      ∃ call ∈ calls, later.updateTime = some call.now := by
  induction calls generalizing service with
  | nil => exact .inl hl
  | cons call calls ih =>
    rcases ih hl with hl | ⟨call', hcall', htime⟩
    · rcases (handle_versioned service call : Versioned codec _ _ _) name with
        hsame | hnone | ⟨new, hnew, -, hv⟩
      · exact .inl (hsame ▸ hl)
      · rw [hnone] at hl
        cases hl
      · obtain rfl := Option.some.inj (hnew.symm.trans hl)
        exact .inr ⟨call, List.mem_cons_self, hv.updateTime⟩
    · exact .inr ⟨call', List.mem_cons_of_mem _ hcall', htime⟩

/-- A document with the time it had before the calls is the one it was. -/
theorem Unreused.documentNow_eq {service : FirestoreService β} {calls : List Call}
    (h : Unreused codec service calls) {name : String} {document later : Document}
    (hd : documentNow codec service name = some document)
    (hl : documentNow codec (run codec service calls) name = some later)
    (htime : later.updateTime = document.updateTime) : later = document := by
  rcases run_version hl with hl | ⟨call, hcall, hnow⟩
  · exact Option.some.inj (hl.symm.trans hd)
  · exact absurd (htime.symm.trans hnow) (h name document hd call hcall)

theorem stamped_empty {service : FirestoreService β}
    (h : ∀ name, documentNow codec service name = none) : Stamped codec service := by
  intro name document hd
  rw [h name] at hd
  cases hd

end FirebaseEmu.Firestore
