import FirebaseEmu.Firestore.Durable

namespace FirebaseEmu.Firestore
open Lib Std

variable {β : Type} (codec : DocumentCodec β)

/-- A row that holds the document under its name, with the database of that name. -/
structure SameRow (name : String) (row : Row β) (document : Document) : Prop where
  valid : validateDocumentName name = .ok ()
  database : databaseFromResource name = .ok row.databaseName
  decode : codec.decode row.document = .ok document

def SameRows (rows : ExtTreeMap String (Row β)) (documents : Documents) : Prop :=
  ∀ name, Option.Rel (SameRow codec name) rows[name]? documents[name]?

variable {codec}

section Rows
variable {rows : ExtTreeMap String (Row β)} {documents : Documents}

theorem SameRows.some_left (h : SameRows codec rows documents) {name : String} {row : Row β}
    (hr : rows[name]? = some row) :
    ∃ document, documents[name]? = some document ∧ SameRow codec name row document := by
  have := h name
  rw [hr] at this
  cases hd : documents[name]? with
  | none => rw [hd] at this; cases this
  | some document =>
    rw [hd] at this
    cases this with
    | some hs => exact ⟨document, rfl, hs⟩

theorem SameRows.none_left (h : SameRows codec rows documents) {name : String}
    (hr : rows[name]? = none) : documents[name]? = none := by
  have := h name
  rw [hr] at this
  cases hd : documents[name]? with
  | none => rfl
  | some document => rw [hd] at this; cases this

theorem SameRows.contains_eq (h : SameRows codec rows documents) (name : String) :
    documents.contains name = rows.contains name := by
  rw [ExtTreeMap.contains_eq_isSome_getElem?, ExtTreeMap.contains_eq_isSome_getElem?]
  cases hr : rows[name]? with
  | none => rw [h.none_left hr]; rfl
  | some row =>
    obtain ⟨document, hd, -⟩ := h.some_left hr
    rw [hd]
    rfl

theorem SameRows.stored (h : SameRows codec rows documents) (name : String) :
    storedDocument codec rows name = documents[name]? := by
  unfold storedDocument
  cases hr : rows[name]? with
  | none => rw [h.none_left hr]; rfl
  | some row =>
    obtain ⟨document, hd, hs⟩ := h.some_left hr
    rw [hd]
    simp [hs.decode, Except.toOption]

theorem SameRows.loaded (h : SameRows codec rows documents) {writes : List Write}
    {before : Documents} (hb : Loaded codec rows writes before) {name : String}
    (ht : Touched writes name) : before[name]? = documents[name]? := by
  rw [hb name, if_pos ht, h.stored]

/-- On the working map of a request the writes answer as on the whole store. -/
theorem SameRows.outcomes_eq (h : SameRows codec rows documents) {writes : List Write}
    {before : Documents} (hb : Loaded codec rows writes before) (writeTime : Timestamp) :
    (writeOps writeTime).outcomes before writes = (writeOps writeTime).outcomes documents writes :=
  KeyedOps.outcomes_congr fun write hw _ hn => h.loaded hb ⟨write, hw, hn⟩

theorem SameRows.after_eq (h : SameRows codec rows documents) {writes : List Write}
    {before : Documents} (hb : Loaded codec rows writes before) (writeTime : Timestamp)
    {name : String} (ht : Touched writes name) :
    ((writeOps writeTime).after before writes)[name]? =
      ((writeOps writeTime).after documents writes)[name]? := by
  rw [KeyedOps.after_getElem?, KeyedOps.after_getElem?, h.loaded hb ht]

/-- The rows a request writes are those of the documents its writes lead to. -/
theorem SameRows.wrote {p p' : Persistence β} (h : SameRows codec p.documents documents)
    {database : String} {writes : List Write} {writeTime : Timestamp} {before : Documents}
    (wrote : WroteRows codec p p' database writes writeTime before) :
    SameRows codec p'.documents ((writeOps writeTime).after documents writes) := by
  intro name
  rw [wrote.rows name]
  split
  · rename_i ht
    rw [h.after_eq wrote.loaded writeTime ht]
    obtain ⟨write, hw, hn⟩ := ht
    obtain ⟨name', hn', hv, hd⟩ := (validateWritesDatabase_ok wrote.valid).2 write hw
    obtain rfl := Except.ok.inj (hn.symm.trans hn')
    cases ((writeOps writeTime).after documents writes)[name]? with
    | none => exact .none
    | some document => exact .some ⟨hv, hd, codec.decode_encode document⟩
  · rename_i ht
    have hn : ∀ write ∈ writes, (writeOps writeTime).key write ≠ .ok name :=
      fun write hw hk => ht ⟨write, hw, hk⟩
    rw [KeyedOps.after_unnamed hn]
    exact h name

/-- Where the rows are those of a store, a refusal comes from a refused write or from a
full outbox. -/
theorem SameRows.refusal {p : Persistence β} (h : SameRows codec p.documents documents)
    {database : String} {writes : List Write} {allowPartial : Bool} {writeTime : Timestamp}
    {status : Status} (hv : validateWritesDatabase database writes = .ok ())
    (hr : WriteRefusal codec p database writes allowPartial writeTime status) :
    (allowPartial = false ∧
      allOk ((writeOps writeTime).outcomes documents writes) = .error status) ∨
    ∃ outstanding, status = persistenceStatus (.outboxFull outstanding) := by
  cases hr with
  | scope hs =>
    rw [hv] at hs
    cases hs
  | unreadable hr hd =>
    obtain ⟨document, -, hs⟩ := h.some_left hr
    rw [hs.decode] at hd
    cases hd
  | write ha _ hb ho =>
    rw [h.outcomes_eq hb] at ho
    exact .inl ⟨ha, ho⟩
  | full => exact .inr ⟨_, rfl⟩

end Rows

end FirebaseEmu.Firestore
