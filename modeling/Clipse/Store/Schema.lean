import Mathlib.Data.List.Basic

/-!
# Migrations (`clipse-store/src/schema.rs`)

`open_and_migrate` over a database that commits every statement on its own, as a connection outside
a transaction does. A run may be cut off between two statements: `runFor` lets so many commit. Of a
table the model has whether it exists; only `schema_version` has rows.
-/

namespace Clipse

/-- `CURRENT_SCHEMA_VERSION`. -/
def currentSchemaVersion : Int := 1

/-- What `migrate_v1` creates. -/
inductive SchemaObject where
  | clip
  | clipHashIdx
  | clipHlcIdx
  | clipRecentIdx
  | payload
  | payloadDigestIdx
  | blobMeta
  | blobMetaUsedIdx
  | clipFts
deriving DecidableEq

/-- The table that an index is on. -/
def SchemaObject.table : SchemaObject → Option SchemaObject
  | clipHashIdx | clipHlcIdx | clipRecentIdx => some clip
  | payloadDigestIdx => some payload
  | blobMetaUsedIdx => some blobMeta
  | clip | payload | blobMeta | clipFts => none

structure Database where
  /-- The rows of `schema_version`, if there is the table. -/
  schemaVersion : Option (List Int)
  /-- What else there is. -/
  objects : List SchemaObject
deriving DecidableEq

inductive SchemaError where
  /-- `Error::SchemaTooNew`. -/
  | schemaTooNew (found supported : Int)
  | alreadyExists (object : SchemaObject)
  | noSuchTable
deriving DecidableEq

/-- Why a run has ended early. -/
inductive Stop where
  | cut
  | failed (e : SchemaError)
deriving DecidableEq

structure Connection where
  db : Database
  /-- How many more statements commit, if the run is to be cut off. -/
  left : Option Nat

/-- What runs on a connection. -/
abbrev Sqlite := EStateM Stop Connection

/-- What is left when one more statement commits. -/
def Connection.spend (conn : Connection) : Option (Option Nat) :=
  match conn.left with
  | none => some none
  | some 0 => none
  | some (left + 1) => some (some left)

namespace Sqlite

/-- One statement, which commits unless it fails. -/
def execute (statement : Database → Except SchemaError Database) : Sqlite Unit := do
  let conn ← get
  match conn.spend with
  | none => throw .cut
  | some left =>
    match statement conn.db with
    | .error e => throw (.failed e)
    | .ok db => set { db, left : Connection }

/-- `CREATE TABLE IF NOT EXISTS schema_version`. -/
def createSchemaVersion (db : Database) : Except SchemaError Database :=
  .ok { db with schemaVersion := some (db.schemaVersion.getD []) }

/-- `INSERT INTO schema_version (version) VALUES (0)`. -/
def insertVersion (db : Database) : Except SchemaError Database :=
  match db.schemaVersion with
  | none => .error .noSuchTable
  | some rows => .ok { db with schemaVersion := some (rows ++ [0]) }

/-- `UPDATE schema_version SET version`. -/
def updateVersion (target : Int) (db : Database) : Except SchemaError Database :=
  match db.schemaVersion with
  | none => .error .noSuchTable
  | some rows => .ok { db with schemaVersion := some (rows.map fun _ => target) }

/-- `CREATE TABLE`, `CREATE INDEX` or `CREATE VIRTUAL TABLE`. -/
def create (object : SchemaObject) (db : Database) : Except SchemaError Database :=
  if object ∈ db.objects then .error (.alreadyExists object)
  else if object.table.all (· ∈ db.objects) then .ok { db with objects := db.objects ++ [object] }
  else .error .noSuchTable

/-- `SELECT version FROM schema_version LIMIT 1`. -/
def selectVersion : Sqlite (Option Int) := do
  match (← get).db.schemaVersion with
  | none => throw (.failed .noSuchTable)
  | some rows => return rows.head?

/-- What `migrate_v1` creates, in the order of its batch. -/
def schemaV1 : List SchemaObject :=
  [.clip, .clipHashIdx, .clipHlcIdx, .clipRecentIdx, .payload, .payloadDigestIdx, .blobMeta,
    .blobMetaUsedIdx, .clipFts]

/-- `migrate_v1`. -/
def migrateV1 : Sqlite Unit := schemaV1.forM fun object => execute (create object)

/-- `MIGRATIONS`. -/
def migrations : List (Int × Sqlite Unit) := [(1, migrateV1)]

/-- The loop over `MIGRATIONS`. -/
def migrateFrom (version : Int) : List (Int × Sqlite Unit) → Sqlite Unit
  | [] => pure ()
  | (target, migrate) :: rest =>
    if version < target then do
      migrate
      execute (updateVersion target)
      migrateFrom target rest
    else migrateFrom version rest

/-- `open_and_migrate`. -/
def openAndMigrate : Sqlite Unit := do
  execute createSchemaVersion
  let version := (← selectVersion).getD 0
  if version = 0 then
    execute insertVersion
  if currentSchemaVersion < version then
    throw (.failed (.schemaTooNew version currentSchemaVersion))
  migrateFrom version migrations

end Sqlite

namespace Database

def empty : Database := { schemaVersion := none, objects := [] }

/-- A run of `open_and_migrate`, cut off after so many statements or not at all. -/
def runFor (left : Option Nat) (db : Database) : Except Stop Unit × Database :=
  match Sqlite.openAndMigrate.run { db, left } with
  | .ok result conn => (.ok result, conn.db)
  | .error e conn => (.error e, conn.db)

/-- What is left behind by runs that are cut off after so many statements each. -/
def leftBy (cuts : List Nat) : Database := cuts.foldl (fun db n => (db.runFor (some n)).2) empty

end Database
end Clipse
