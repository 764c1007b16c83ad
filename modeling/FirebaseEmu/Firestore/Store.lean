import FirebaseEmu.Firestore.Writes

namespace FirebaseEmu.Firestore
open Lib Std

/-- Every document is stored under its own name. -/
def Named (documents : Documents) : Prop :=
  ∀ (name : String) (document : Document), documents[name]? = some document →
    document.name = name

theorem named_empty : Named ∅ := by
  intro name document h
  simp at h

theorem Named.put {documents : Documents} (h : Named documents) (name : String)
    {after : Option Document} (ha : ∀ document, after = some document → document.name = name) :
    Named (put documents name after) := by
  intro j document hj
  rw [getElem?_put] at hj
  split at hj
  · rename_i he
    rw [ha document hj, he]
  · exact h j document hj

theorem Named.insert {documents : Documents} (h : Named documents) (document : Document) :
    Named (documents.insert document.name document) := by
  rw [insert_eq_put]
  exact h.put document.name (by rintro _ ⟨⟩; rfl)

theorem Named.erase {documents : Documents} (h : Named documents) (name : String) :
    Named (documents.erase name) := by
  rw [erase_eq_put]
  exact h.put name (by simp)

theorem Named.filter {documents : Documents} (h : Named documents)
    (keep : String → Document → Bool) : Named (documents.filter keep) := by
  intro name document hf
  rw [ExtTreeMap.getElem?_filter', Option.filter_eq_some_iff] at hf
  exact h name document hf.1

theorem Named.applyWrite {documents : Documents} (h : Named documents) (request : Write)
    (writeTime : Timestamp) : Named (applyWrite documents request writeTime).2 := by
  cases hn : writeName request with
  | error status => rw [applyWrite_unnamed documents writeTime hn]; exact h
  | ok name =>
    rw [applyWrite_eq documents writeTime hn]
    split
    · rename_i result after hw
      obtain ⟨name', hn', -, hd⟩ := writeDocument_ok hw
      obtain rfl := Except.ok.inj (hn.symm.trans hn')
      exact h.put name fun document ha => (hd document ha).1
    · exact h

/-- The state behind the store lock. With the SQLite backend `documents` stays empty. -/
structure Store where
  documents : Documents
  transactions : ExtTreeMap Bytes String
  nextId : Nat
  named : Named documents

def Store.empty : Store := ⟨∅, ∅, 0, named_empty⟩

def Store.setTransactions (store : Store) (transactions : ExtTreeMap Bytes String) : Store :=
  { store with transactions := transactions }

def Store.setDocuments (store : Store) (documents : Documents) (named : Named documents) : Store :=
  { store with documents := documents, named := named }

theorem Store.setDocuments_self (store : Store) {documents : Documents} {named : Named documents}
    (h : documents = store.documents) : store.setDocuments documents named = store := by
  subst h
  rfl

def validateTransaction (store : Store) (database : String) (transaction : Bytes) :
    Except Status Unit :=
  match store.transactions[transaction]? with
  | some transactionDatabase =>
    if transactionDatabase = database then .ok ()
    else .error (invalidArgument "transaction does not belong to the requested database")
  | none => .error (invalidArgument "transaction is not active")

/-- `uuid` is the random identifier drawn for the token. -/
def createTransaction (store : Store) (database : String) (uuid : Bytes) : Bytes × Store :=
  (uuid, store.setTransactions (store.transactions.insert uuid database))

end FirebaseEmu.Firestore
