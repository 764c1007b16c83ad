import FirebaseEmu.Lib.Results
import Mathlib

namespace FirebaseEmu.DataDirectory
open Lib

def schemaVersion : Int := 2

def applicationId : Int := 0x46454d55

inductive MigrationError where
  | corrupt (found : String)
  | newerSchema (found supported : Int)
  | foreignDatabase
  | sqlite (error : String)
  deriving DecidableEq

/-- A database file: what `integrity_check` says of it, the two numbers of its header, and its
tables with their rows. -/
structure Database (ρ : Type) where
  integrity : String
  userVersion : Int
  applicationId : Int
  tables : List (String × List ρ)
  deriving DecidableEq

variable {ρ : Type}

/-- The names of tables, which have no case. -/
def Database.names (db : Database ρ) : List String := db.tables.map fun table => table.1.toLower

/-- `name LIKE 'sqlite_%'`, where `_` is any one character. -/
def likeSqlite (name : String) : Bool := name.startsWith "sqlite" && decide (7 ≤ name.length)

def Database.tableCount (db : Database ρ) : Nat := db.names.countP fun name => !likeSqlite name

/-- `CREATE TABLE` for each of the tables, with the rows it gets. -/
def createTables (db : Database ρ) : List (String × List ρ) → Except MigrationError (Database ρ)
  | [] => .ok db
  | table :: rest =>
    if table.1 ∈ db.names then .error (.sqlite ("table " ++ table.1 ++ " already exists"))
    else createTables { db with tables := db.tables ++ [table] } rest

/-- The tables of version 1; `counter` is the row of a counter that stands at zero. -/
def firstTables (counter : String → ρ) : List (String × List ρ) :=
  [("firestore_documents", []),
    ("counters", ["firestore_auto_id", "storage_generation", "event_completed"].map counter),
    ("auth_users", []), ("auth_sessions", []), ("storage_objects", []), ("event_outbox", [])]

/-- The tables of version 2. -/
def pubsubTables : List (String × List ρ) :=
  [("pubsub_topics", []), ("pubsub_subscriptions", []), ("pubsub_messages", []),
    ("pubsub_deliveries", [])]

def firstNames : List String :=
  ["firestore_documents", "counters", "auth_users", "auth_sessions", "storage_objects",
    "event_outbox"]

def pubsubNames : List String :=
  ["pubsub_topics", "pubsub_subscriptions", "pubsub_messages", "pubsub_deliveries"]

/-- The transaction that makes version 1. -/
def createFirst (counter : String → ρ) (db : Database ρ) : Except MigrationError (Database ρ) := do
  let created ← createTables db (firstTables counter)
  return { created with applicationId := applicationId, userVersion := 1 }

/-- The transaction that makes version 2. -/
def addPubsub (db : Database ρ) : Except MigrationError (Database ρ) := do
  let created ← createTables db pubsubTables
  return { created with userVersion := 2 }

/-- `migrate` up to the end of its first transaction. -/
def prepare (counter : String → ρ) (db : Database ρ) : Except MigrationError (Database ρ) :=
  if db.integrity ≠ "ok" then .error (.corrupt db.integrity)
  else if schemaVersion < db.userVersion then .error (.newerSchema db.userVersion schemaVersion)
  else if db.userVersion = 0 then
    if db.tableCount ≠ 0 ∨ (db.applicationId ≠ 0 ∧ db.applicationId ≠ applicationId) then
      .error .foreignDatabase
    else createFirst counter db
  else .ok db

/-- The rest of `migrate`, with the database it leaves. -/
def complete (db : Database ρ) : Except MigrationError Unit × Database ρ :=
  if db.applicationId ≠ applicationId then (.error .foreignDatabase, db)
  else if db.userVersion = 1 then
    match addPubsub db with
    | .ok created => (.ok (), created)
    | .error error => (.error error, db)
  else (.ok (), db)

def migrate (counter : String → ρ) (db : Database ρ) : Except MigrationError Unit × Database ρ :=
  match prepare counter db with
  | .ok prepared => complete prepared
  | .error error => (.error error, db)

/-- What a start leaves that dies between the two transactions. -/
def interrupted (counter : String → ρ) (db : Database ρ) : Database ρ :=
  match prepare counter db with
  | .ok prepared => prepared
  | .error _ => db

theorem createTables_ok {tables : List (String × List ρ)} {db : Database ρ}
    (hnew : ∀ name ∈ tables.map Prod.fst, name ∉ db.names)
    (hdistinct : (tables.map Prod.fst).Pairwise fun name later => later ≠ name.toLower) :
    createTables db tables = .ok { db with tables := db.tables ++ tables } := by
  induction tables generalizing db with
  | nil =>
    unfold createTables
    rw [List.append_nil]
  | cons table tables ih =>
    rw [List.map_cons, List.pairwise_cons] at hdistinct
    rw [List.map_cons, List.forall_mem_cons] at hnew
    unfold createTables
    rw [if_neg hnew.1, ih ?_ hdistinct.2, List.append_assoc, List.singleton_append]
    intro later hm hmem
    unfold Database.names at hmem
    rw [List.map_append, List.mem_append, List.map_singleton, List.mem_singleton] at hmem
    rcases hmem with hmem | hmem
    · exact hnew.2 later hm hmem
    · exact hdistinct.1 later hm hmem

/-- No two tables are of one name, and none is of a name that SQLite keeps for itself. -/
theorem tableNames :
    firstNames.Pairwise (fun name later => later ≠ name.toLower) ∧
    pubsubNames.Pairwise (fun name later => later ≠ name.toLower) ∧
    (∀ name ∈ pubsubNames, name ∉ firstNames.map String.toLower) ∧
    ∀ name ∈ firstNames ++ pubsubNames, likeSqlite name = false := by
  decide +kernel

theorem pubsubNames_new : ∀ name ∈ pubsubNames, name ∉ firstNames.map String.toLower :=
  tableNames.2.2.1

theorem schemaNames_own : ∀ name ∈ firstNames ++ pubsubNames, likeSqlite name = false :=
  tableNames.2.2.2

/-- The database after the first transaction. -/
def Database.withFirst (counter : String → ρ) (db : Database ρ) : Database ρ :=
  { db with
    applicationId := DataDirectory.applicationId
    userVersion := 1
    tables := db.tables ++ firstTables counter }

/-- The database after the second one. -/
def Database.withPubsub (db : Database ρ) : Database ρ :=
  { db with userVersion := 2, tables := db.tables ++ pubsubTables }

theorem addPubsub_ok {db : Database ρ} (h : ∀ name ∈ pubsubNames, name ∉ db.names) :
    addPubsub db = .ok db.withPubsub := by
  have hcreated := @createTables_ok ρ pubsubTables db h tableNames.2.1
  unfold addPubsub
  rw [hcreated]
  rfl

/-- The tables of an empty database are those of SQLite itself. -/
theorem likeSqlite_of_count {db : Database ρ} (h : db.tableCount = 0) {name : String}
    (hm : name ∈ db.names) : likeSqlite name = true := by
  have := List.countP_eq_zero.mp h name hm
  simpa using this

theorem createFirst_ok (counter : String → ρ) {db : Database ρ} (h : db.tableCount = 0) :
    createFirst counter db = .ok (db.withFirst counter) := by
  have hnew : ∀ name ∈ firstNames, name ∉ db.names := by
    intro name hm hmem
    have hlike := likeSqlite_of_count h hmem
    rw [schemaNames_own name (List.mem_append_left _ hm)] at hlike
    cases hlike
  have hcreated := @createTables_ok ρ (firstTables counter) db hnew tableNames.1
  unfold createFirst
  rw [hcreated]
  rfl

/-- A database file, and whether a process has it open. -/
structure DataStore (ρ : Type) where
  database : Database ρ
  opened : Bool

/-- A process starts, or dies between the two transactions of its start. It stops. It writes the
rows of a table. -/
inductive StoreEvent (ρ : Type) where
  | start
  | dies
  | stop
  | write (name : String) (rows : List ρ)

def Database.setRows (db : Database ρ) (name : String) (rows : List ρ) : Database ρ :=
  { db with tables := db.tables.map fun table => if table.1 = name then (name, rows) else table }

namespace DataStore

def step (counter : String → ρ) (s : DataStore ρ) : StoreEvent ρ → DataStore ρ
  | .start =>
    -- the lock keeps another process out
    if s.opened then s
    else match migrate counter s.database with
      | (.ok _, db) => ⟨db, true⟩
      | (.error _, db) => ⟨db, false⟩
  | .dies => if s.opened then s else ⟨interrupted counter s.database, false⟩
  | .stop => { s with opened := false }
  | .write name rows =>
    if s.opened then { s with database := s.database.setRows name rows } else s

end DataStore

def StoreEvent.quiet : StoreEvent ρ → Bool
  | .write .. => false
  | _ => true

def schemaNames : List String := firstNames ++ pubsubNames

/-- A database as a start of this program may leave it, finished or not. -/
inductive Stage (db : Database ρ) : Prop where
  | new (hversion : db.userVersion = 0) (hid : db.applicationId = 0) (htables : db.tables = [])
  | first (hversion : db.userVersion = 1) (hid : db.applicationId = applicationId)
    (htables : db.tables.map Prod.fst = firstNames)
  | whole (hversion : db.userVersion = 2) (hid : db.applicationId = applicationId)
    (htables : db.tables.map Prod.fst = schemaNames)

structure Ours (db : Database ρ) : Prop where
  integrity : db.integrity = "ok"
  stage : Stage db

/-- A whole database. -/
structure Whole (db : Database ρ) : Prop extends Ours db where
  version : db.userVersion = 2

theorem whole_tables {db : Database ρ} (h : Whole db) : db.tables.map Prod.fst = schemaNames := by
  have hv := h.version
  cases h.stage with
  | new hversion => omega
  | first hversion => omega
  | whole hversion hid htables => exact htables

/-- A database of this program has the first tables after the first transaction of a start. -/
theorem prepare_ours (counter : String → ρ) {db : Database ρ} (h : Ours db) :
    ∃ prepared, prepare counter db = .ok prepared ∧ Ours prepared ∧ prepared.userVersion ≠ 0 := by
  obtain ⟨hintegrity, hstage⟩ := h
  unfold prepare
  rw [if_neg (by simpa using hintegrity)]
  cases hstage with
  | new hversion hid htables =>
    have hcount : db.tableCount = 0 := by simp [Database.tableCount, Database.names, htables]
    rw [if_neg (by rw [hversion]; decide), if_pos hversion,
      if_neg (by simp [hcount, hid]), createFirst_ok counter hcount]
    refine ⟨_, rfl, ⟨hintegrity, .first rfl rfl ?_⟩, ?_⟩
    · unfold Database.withFirst
      rw [htables]
      rfl
    · exact Int.one_ne_zero
  | first hversion hid htables =>
    rw [if_neg (by rw [hversion]; decide), if_neg (by rw [hversion]; decide)]
    exact ⟨db, rfl, ⟨hintegrity, .first hversion hid htables⟩, by rw [hversion]; decide⟩
  | whole hversion hid htables =>
    rw [if_neg (by rw [hversion]; decide), if_neg (by rw [hversion]; decide)]
    exact ⟨db, rfl, ⟨hintegrity, .whole hversion hid htables⟩, by rw [hversion]; decide⟩

/-- The rest of the start makes it whole. -/
theorem complete_ours {db : Database ρ} (h : Ours db) (hversion : db.userVersion ≠ 0) :
    ∃ migrated, complete db = (.ok (), migrated) ∧ Whole migrated := by
  obtain ⟨hintegrity, hstage⟩ := h
  unfold complete
  cases hstage with
  | new hzero => exact absurd hzero hversion
  | first hone hid htables =>
    have hnames : db.names = firstNames.map String.toLower := by
      rw [← htables, List.map_map]
      rfl
    rw [if_neg (by simpa using hid), if_pos hone,
      addPubsub_ok fun name hm => hnames ▸ pubsubNames_new name hm]
    refine ⟨_, rfl, ⟨hintegrity, .whole rfl hid ?_⟩, rfl⟩
    unfold Database.withPubsub
    rw [List.map_append, htables]
    rfl
  | whole htwo hid htables =>
    rw [if_neg (by simpa using hid), if_neg (by rw [htwo]; decide)]
    exact ⟨db, rfl, ⟨hintegrity, .whole htwo hid htables⟩, htwo⟩

/-- A start on a database of this program is accepted. -/
theorem migrate_ours (counter : String → ρ) {db : Database ρ} (h : Ours db) :
    ∃ migrated, migrate counter db = (.ok (), migrated) ∧ Whole migrated := by
  obtain ⟨prepared, hprepare, hours, hversion⟩ := prepare_ours counter h
  unfold migrate
  rw [hprepare]
  exact complete_ours hours hversion

theorem interrupted_ours (counter : String → ρ) {db : Database ρ} (h : Ours db) :
    Ours (interrupted counter db) := by
  obtain ⟨prepared, hprepare, hours, -⟩ := prepare_ours counter h
  unfold interrupted
  rw [hprepare]
  exact hours

theorem setRows_names (db : Database ρ) (name : String) (rows : List ρ) :
    (db.setRows name rows).tables.map Prod.fst = db.tables.map Prod.fst := by
  unfold Database.setRows
  rw [List.map_map]
  refine List.map_congr_left fun table _ => ?_
  dsimp only [Function.comp]
  split
  · rename_i hname
    exact hname.symm
  · rfl

namespace DataStore
variable (counter : String → ρ) {s : DataStore ρ}

/-- The database is one of this program, and whole while it is open. -/
structure Sound (s : DataStore ρ) : Prop where
  ours : Ours s.database
  whole : s.opened = true → Whole s.database

theorem Sound.step (h : s.Sound) (event : StoreEvent ρ) : (s.step counter event).Sound := by
  cases event with
  | start =>
    unfold DataStore.step
    dsimp only
    split
    · exact h
    · obtain ⟨migrated, hdb, hwhole⟩ := migrate_ours counter h.ours
      rw [hdb]
      exact ⟨hwhole.toOurs, fun _ => hwhole⟩
  | dies =>
    unfold DataStore.step
    dsimp only
    split
    · exact h
    · exact ⟨interrupted_ours counter h.ours, fun hopened => by cases hopened⟩
  | stop => exact ⟨h.ours, fun hopened => by cases hopened⟩
  | write name rows =>
    unfold DataStore.step
    dsimp only
    split
    · rename_i hopened
      have hwhole := h.whole hopened
      have hset : Whole (s.database.setRows name rows) := by
        refine ⟨⟨hwhole.integrity, ?_⟩, hwhole.version⟩
        have htables := (setRows_names s.database name rows).trans (whole_tables hwhole)
        cases hwhole.stage with
        | new hversion => exact absurd hversion (by rw [hwhole.version]; decide)
        | first hversion => exact absurd hversion (by rw [hwhole.version]; decide)
        | whole hversion hid _ => exact .whole hversion hid htables
      exact ⟨hset.toOurs, fun _ => hset⟩
    · exact h

theorem Sound.run (h : s.Sound) (events : List (StoreEvent ρ)) :
    (events.foldl (DataStore.step counter) s).Sound := by
  induction events generalizing s with
  | nil => exact h
  | cons event events ih => exact ih (h.step counter event)

end DataStore

end FirebaseEmu.DataDirectory
