import FirebaseEmu.Firestore.Messages
import FirebaseEmu.Lib.Text

namespace FirebaseEmu.Firestore
open Lib

def invalidArgument (message : String) : Status := ⟨.invalidArgument, message⟩

def databaseDocumentPrefix (database : String) : Except Status String :=
  match split '/' database with
  | [root, project, kind, id] =>
    if root != "projects" || project == "" || kind != "databases" || id == "" then
      .error (invalidArgument ("invalid database name: " ++ database))
    else .ok (database ++ "/documents/")
  | _ => .error (invalidArgument ("invalid database name: " ++ database))

def databaseFromResource (resource : String) : Except Status String := do
  let parts := split '/' resource
  if parts.length < 4 then
    throw (invalidArgument ("invalid Firestore resource: " ++ resource))
  let database := join '/' (parts.take 4)
  let _ ← databaseDocumentPrefix database
  pure database

def validateDocumentName (name : String) : Except Status Unit :=
  match split '/' name with
  | root :: project :: kind :: id :: documents :: path =>
    if root == "projects" && project != "" && kind == "databases" && id != "" &&
        documents == "documents" && decide (2 ≤ path.length) && path.length % 2 == 0 then
      .ok ()
    else .error (invalidArgument ("invalid document name: " ++ name))
  | _ => .error (invalidArgument ("invalid document name: " ++ name))

def writeName (write : Write) : Except Status String :=
  match write.operation with
  | some (.update document) => .ok document.name
  | some (.delete name) => .ok name
  | some (.transform document) => .ok document
  | none => .error (invalidArgument "write operation is required")

/-- The check made on each write of a request for `database`. -/
def validateWriteDatabase (database : String) (write : Write) : Except Status Unit := do
  let name ← writeName write
  validateDocumentName name
  if (← databaseFromResource name) != database then
    throw (invalidArgument ("write document does not belong to requested database: " ++ name))

def validateWritesDatabase (database : String) (writes : List Write) : Except Status Unit := do
  let _ ← databaseDocumentPrefix database
  writes.forM (validateWriteDatabase database)

def matchesCollection (name parent collectionId : String) (descendants : Bool) : Bool :=
  match (stripPrefix name (trimEnd '/' parent)).bind (stripPrefix · "/") with
  | none => false
  | some relative =>
    let parts := split '/' relative
    if descendants then
      decide (2 ≤ parts.length) && parts.length % 2 == 0 &&
        parts[parts.length - 2]? == some collectionId
    else parts.length == 2 && parts[0]? == some collectionId

example : databaseFromResource "projects/test/databases/(default)/documents/items/a" =
    .ok "projects/test/databases/(default)" := by rfl

/-- The database prefix exists exactly for `projects/P/databases/D`. -/
theorem databaseDocumentPrefix_ok {database pre : String}
    (h : databaseDocumentPrefix database = .ok pre) :
    pre = database ++ "/documents/" ∧ ∃ project id, project ≠ "" ∧ id ≠ "" ∧
      split '/' database = ["projects", project, "databases", id] := by
  unfold databaseDocumentPrefix at h
  split at h
  · rename_i root project kind id hs
    split at h
    · cases h
    · rename_i hc
      simp only [Bool.or_eq_true, bne_iff_ne, beq_iff_eq, not_or, ne_eq, not_not] at hc
      obtain ⟨⟨⟨rfl, hp⟩, rfl⟩, hi⟩ := hc
      exact ⟨(Except.ok.inj h).symm, project, id, hp, hi, hs⟩
  · cases h

theorem databaseDocumentPrefix_of_split {database project id : String} (hp : project ≠ "")
    (hi : id ≠ "") (hs : split '/' database = ["projects", project, "databases", id]) :
    databaseDocumentPrefix database = .ok (database ++ "/documents/") := by
  simp [databaseDocumentPrefix, hs, hp, hi]

/-- The database of a resource is read off its first four segments. -/
theorem databaseFromResource_of_take {resource project id : String} (hp : project ≠ "")
    (hi : id ≠ "")
    (h : (split '/' resource).take 4 = ["projects", project, "databases", id]) :
    databaseFromResource resource = .ok (join '/' ["projects", project, "databases", id]) := by
  have hl : ¬ (split '/' resource).length < 4 := by
    have hlen := congrArg List.length h
    simp only [List.length_take, List.length_cons, List.length_nil] at hlen
    omega
  have hs : split '/' (join '/' ["projects", project, "databases", id]) =
      ["projects", project, "databases", id] := by
    rw [← h, split_join_take '/' resource (by decide)]
  simp [databaseFromResource, hl, h, databaseDocumentPrefix_of_split hp hi hs, bind, Except.bind,
    pure, Except.pure]

/-- What an accepted document name looks like, segment by segment. -/
structure DocumentName (name : String) where
  project : String
  id : String
  path : List String
  project_ne : project ≠ ""
  id_ne : id ≠ ""
  two_le : 2 ≤ path.length
  parts : split '/' name = "projects" :: project :: "databases" :: id :: "documents" :: path

theorem documentName_of_valid {name : String} (h : validateDocumentName name = .ok ()) :
    Nonempty (DocumentName name) := by
  unfold validateDocumentName at h
  split at h
  · rename_i root project kind id documents path hs
    split at h
    · rename_i hc
      simp only [Bool.and_eq_true, beq_iff_eq, bne_iff_ne, ne_eq, decide_eq_true_eq] at hc
      obtain ⟨⟨⟨⟨⟨⟨rfl, hp⟩, rfl⟩, hi⟩, rfl⟩, hl⟩, _⟩ := hc
      exact ⟨⟨project, id, path, hp, hi, hl, hs⟩⟩
    · cases h
  · cases h

namespace DocumentName

/-- The database whose documents the name belongs to. -/
def database {name : String} (n : DocumentName name) : String :=
  join '/' ["projects", n.project, "databases", n.id]

theorem take_parts {name : String} (n : DocumentName name) :
    (split '/' name).take 4 = ["projects", n.project, "databases", n.id] := by
  rw [n.parts]; rfl

theorem split_database {name : String} (n : DocumentName name) :
    split '/' n.database = ["projects", n.project, "databases", n.id] := by
  rw [database, ← n.take_parts, split_join_take '/' name (by decide)]

theorem databaseFromResource_eq {name : String} (n : DocumentName name) :
    databaseFromResource name = .ok n.database :=
  databaseFromResource_of_take n.project_ne n.id_ne n.take_parts

theorem name_eq {name : String} (n : DocumentName name) :
    name = n.database ++ "/documents/" ++ join '/' n.path := by
  have hne : n.path ≠ [] := by
    intro he
    have := n.two_le
    simp [he] at this
  have hs : split '/' name =
      ["projects", n.project, "databases", n.id] ++ ("documents" :: n.path) := n.parts
  have hj := congrArg (join '/') hs
  rw [join_split, join_append '/' (by simp) (by simp), join_cons '/' "documents" hne] at hj
  refine hj.trans ?_
  simp only [database, String.append_assoc]
  rfl

/-- For a valid database, a document's name starts with the database's document
prefix exactly when its database is the one read off its first four segments. -/
theorem startsWith_iff {name database : String} (n : DocumentName name)
    (hd : ∃ project id, split '/' database = ["projects", project, "databases", id]) :
    startsWith name (database ++ "/documents/") = true ↔ n.database = database := by
  rw [Lib.startsWith_iff]
  constructor
  · rintro ⟨rest, he⟩
    obtain ⟨project, id, hs⟩ := hd
    have he' : name = database ++ String.singleton '/' ++ ("documents/" ++ rest) := by
      rw [he]
      simp only [String.append_assoc]
      rfl
    have hcut : (split '/' name).take 4 = split '/' database := by
      rw [he', split_append, hs]; rfl
    rw [n.take_parts] at hcut
    rw [DocumentName.database, hcut, join_split]
  · rintro rfl
    exact ⟨_, n.name_eq⟩

end DocumentName

end FirebaseEmu.Firestore
