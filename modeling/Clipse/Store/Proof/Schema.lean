import Clipse.Store.Schema
import Mathlib.Tactic.IntervalCases

/-!
# Migrations that are cut off (`clipse-store/src/schema.rs`)

`open_and_migrate` is in no transaction, so each of its twelve statements commits on its own, and what
a run leaves depends on how many did. Before the `INSERT` nothing has been done that the next run does
not do again; after the `UPDATE` nothing is left to do. What is left between the two is never repaired:
the row is inserted a second time, and what has been created is in the way
(`migrations_survive_iff`).
-/

namespace Clipse

namespace Sqlite

variable {conn : Connection} {statement : Database → Except SchemaError Database}

@[simp] theorem run_execute : (execute statement).run conn =
    match conn.spend with
    | none => .error .cut conn
    | some left =>
      match statement conn.db with
      | .error e => .error (.failed e) conn
      | .ok db => .ok () { db, left } := by
  cases hs : conn.spend with
  | none => simp [execute, hs]
  | some left => cases hdb : statement conn.db <;> simp [execute, hs, hdb]

@[simp] theorem run_selectVersion : selectVersion.run conn =
    match conn.db.schemaVersion with
    | none => .error (.failed .noSuchTable) conn
    | some rows => .ok rows.head? conn := by
  cases hr : conn.db.schemaVersion with
  | none =>
    simp [selectVersion, hr]
    rfl
  | some rows => simp [selectVersion, hr]

end Sqlite

namespace Database

open Sqlite

/-- How many statements a run on a new database has. -/
def statementCount : Nat := schemaV1.length + 3

/-- The next run succeeds, and leaves the whole schema and one row that says so. -/
def Repaired (db : Database) : Prop :=
  db.runFor none = (.ok (), { schemaVersion := some [currentSchemaVersion], objects := schemaV1 })

/-- No run has come to its `INSERT`. -/
def Untouched (db : Database) : Prop :=
  db.objects = [] ∧ (db.schemaVersion = none ∨ db.schemaVersion = some [])

/-- A run has come to its `UPDATE`, and is the first that came to its `INSERT`. -/
def Migrated (db : Database) : Prop :=
  db = { schemaVersion := some [currentSchemaVersion], objects := schemaV1 }

/-- A run has been cut off between the two. -/
inductive Damaged : Database → Prop where
  /-- The row is there, and nothing else. -/
  | inserted (rows : List Int) : Damaged ⟨some (0 :: rows), []⟩
  /-- `clip` is there too. -/
  | created (rows : List Int) {objects : List SchemaObject} (h : .clip ∈ objects) :
      Damaged ⟨some (0 :: rows), objects⟩
  /-- The version is right, in more than one row. -/
  | updated (row : Int) (rows : List Int) : Damaged ⟨some (1 :: row :: rows), schemaV1⟩

/-! ## What a run does -/

/-- A database from a later program is left alone. -/
theorem runFor_ahead {version : Int} {rows : List Int} {objects : List SchemaObject}
    (hv : currentSchemaVersion < version) (left : Option Nat) :
    (runFor left ⟨some (version :: rows), objects⟩).2 = ⟨some (version :: rows), objects⟩ ∧
      runFor none ⟨some (version :: rows), objects⟩ =
        (.error (.failed (.schemaTooNew version currentSchemaVersion)),
          ⟨some (version :: rows), objects⟩) := by
  have hne : version ≠ 0 := by
    unfold currentSchemaVersion at hv
    omega
  rcases left with _ | _ | left <;>
    simp [runFor, openAndMigrate, createSchemaVersion, Connection.spend, hne, hv]

/-- What is there already is in the way. -/
theorem runFor_created {rows : List Int} {objects : List SchemaObject} (h : .clip ∈ objects) :
    runFor none ⟨some (0 :: rows), objects⟩ =
      (.error (.failed (.alreadyExists .clip)), ⟨some (0 :: (rows ++ [0])), objects⟩) := by
  simp [runFor, openAndMigrate, createSchemaVersion, insertVersion, Connection.spend, migrations,
    migrateFrom, currentSchemaVersion, migrateV1, schemaV1, create, h]

theorem runFor_created_cut {rows : List Int} {objects : List SchemaObject} (h : .clip ∈ objects)
    (n : Nat) : (runFor (some (n + 2)) ⟨some (0 :: rows), objects⟩).2 =
      ⟨some (0 :: (rows ++ [0])), objects⟩ := by
  rcases n with _ | n <;>
    simp [runFor, openAndMigrate, createSchemaVersion, insertVersion, Connection.spend, migrations,
      migrateFrom, currentSchemaVersion, migrateV1, schemaV1, create, h]

/-- With nothing in the way, a second row is inserted. -/
theorem runFor_inserted (rows : List Int) : runFor none ⟨some (0 :: rows), []⟩ =
    (.ok (), ⟨some (1 :: (rows ++ [0]).map fun _ => 1), schemaV1⟩) := rfl

variable {db : Database}

/-! ### Runs that are not cut off -/

theorem Untouched.repaired (h : db.Untouched) : db.Repaired := by
  obtain ⟨version, objects⟩ := db
  obtain ⟨rfl, rfl | rfl⟩ := h
  · rfl
  · rfl

theorem Migrated.repaired (h : db.Migrated) : db.Repaired := by
  rw [h]
  rfl

theorem Damaged.not_repaired (h : db.Damaged) : ¬ db.Repaired := by
  unfold Repaired
  cases h with
  | inserted rows =>
    rw [runFor_inserted]
    simp [currentSchemaVersion]
  | created rows hclip =>
    rw [runFor_created hclip]
    simp
  | updated row rows =>
    have hrun : runFor none ⟨some (1 :: row :: rows), schemaV1⟩ =
        (.ok (), ⟨some (1 :: row :: rows), schemaV1⟩) := rfl
    rw [hrun]
    simp [currentSchemaVersion]

/-! ### Runs that are cut off -/

variable {n : Nat}

theorem Untouched.run (h : db.Untouched) (hn : n ≤ 1) : (db.runFor (some n)).2.Untouched := by
  obtain ⟨version, objects⟩ := db
  obtain ⟨rfl, hversion⟩ := h
  interval_cases n
  · exact ⟨rfl, hversion⟩
  · rcases hversion with rfl | rfl
    · exact ⟨rfl, .inr rfl⟩
    · exact ⟨rfl, .inr rfl⟩

theorem Untouched.damaged (h : db.Untouched) (hn : 1 < n) (hlast : n < statementCount) :
    (db.runFor (some n)).2.Damaged := by
  obtain ⟨version, objects⟩ := db
  change n < 12 at hlast
  obtain ⟨rfl, rfl | rfl⟩ := h <;> interval_cases n
  all_goals first
    | exact .inserted []
    | exact .created [] List.mem_cons_self

theorem Untouched.migrated (h : db.Untouched) (hn : statementCount ≤ n) :
    (db.runFor (some n)).2.Migrated := by
  obtain ⟨version, objects⟩ := db
  obtain ⟨k, rfl⟩ := Nat.exists_eq_add_of_le' hn
  obtain ⟨rfl, rfl | rfl⟩ := h
  · rfl
  · rfl

theorem Migrated.run (h : db.Migrated) : (db.runFor (some n)).2.Migrated := by
  rw [h]
  rcases n with _ | n
  · rfl
  · rfl

theorem Damaged.run (h : db.Damaged) : (db.runFor (some n)).2.Damaged := by
  cases h with
  | inserted rows =>
    rcases Nat.lt_or_ge n 12 with hlast | hlast
    · interval_cases n
      all_goals first
        | exact .inserted _
        | exact .created _ List.mem_cons_self
    · obtain ⟨k, rfl⟩ := Nat.exists_eq_add_of_le' hlast
      cases rows with
      | nil => exact .updated 1 []
      | cons row rows => exact .updated 1 _
  | @created rows objects hclip =>
    match n with
    | 0 => exact .created rows hclip
    | 1 => exact .created rows hclip
    | n + 2 =>
      rw [runFor_created_cut hclip]
      exact .created _ hclip
  | updated row rows =>
    rcases n with _ | n
    · exact .updated row rows
    · exact .updated row rows

/-! ## Runs one after another -/

theorem foldl_damaged (h : db.Damaged) (cuts : List Nat) :
    (cuts.foldl (fun db n => (db.runFor (some n)).2) db).Damaged := by
  induction cuts generalizing db with
  | nil => exact h
  | cons n cuts ih => exact ih h.run

theorem foldl_migrated {cuts : List Nat} (h : db.Migrated) :
    (cuts.foldl (fun db n => (db.runFor (some n)).2) db).Migrated := by
  induction cuts generalizing db with
  | nil => exact h
  | cons n cuts ih => exact ih h.run

theorem repaired_foldl_iff {cuts : List Nat} (h : db.Untouched) :
    (cuts.foldl (fun db n => (db.runFor (some n)).2) db).Repaired ↔
      ∀ n ∈ cuts.takeWhile (· < statementCount), n ≤ 1 := by
  induction cuts generalizing db with
  | nil => simpa using h.repaired
  | cons n cuts ih =>
    rw [List.foldl_cons]
    rcases Nat.lt_or_ge n statementCount with hlast | hlast
    · rw [List.takeWhile_cons_of_pos (by simpa using hlast), List.forall_mem_cons]
      rcases Nat.lt_or_ge 1 n with hn | hn
      · have hdamaged := foldl_damaged (h.damaged hn hlast) cuts
        simp [hdamaged.not_repaired, Nat.not_le_of_lt hn]
      · rw [ih (h.run hn)]
        simp [hn]
    · rw [List.takeWhile_cons_of_neg (by simpa using hlast)]
      simpa using (foldl_migrated (h.migrated hlast)).repaired

/-- **Migrations survive** runs that were cut off exactly if each of them, up to the first that
committed all its statements, was cut off before its `INSERT`. And a database whose version is ahead
is left unchanged. -/
theorem migrations_survive_iff (cuts : List Nat) :
    ((leftBy cuts).Repaired ↔ ∀ n ∈ cuts.takeWhile (· < statementCount), n ≤ 1) ∧
      ∀ (version : Int) (rows : List Int) (objects : List SchemaObject) (left : Option Nat),
        currentSchemaVersion < version →
          (runFor left ⟨some (version :: rows), objects⟩).2 = ⟨some (version :: rows), objects⟩ ∧
            runFor none ⟨some (version :: rows), objects⟩ =
              (.error (.failed (.schemaTooNew version currentSchemaVersion)),
                ⟨some (version :: rows), objects⟩) :=
  ⟨repaired_foldl_iff ⟨rfl, .inl rfl⟩, fun _ _ _ left hv => runFor_ahead hv left⟩

/-! ## Worked runs -/

/-- Started once, cut off before anything was done, and started again. -/
theorem migrations_survive_restarted :
    (leftBy [0, 12]).Repaired ∧
      (runFor none ⟨some [2], []⟩).1 = .error (.failed (.schemaTooNew 2 1)) := by
  obtain ⟨hleft, hahead⟩ := migrations_survive_iff [0, 12]
  refine ⟨hleft.2 (by decide), ?_⟩
  rw [(hahead 2 [] [] none (by decide)).2]
  rfl

/-- The first start dies after the `INSERT`: from then on there are two rows. -/
theorem not_migrations_survive : ¬ ∀ cuts : List Nat, (leftBy cuts).Repaired := by
  intro h
  have hrun : (leftBy [2]).runFor none = (.ok (), ⟨some [1, 1], schemaV1⟩) := rfl
  have hrepaired := h [2]
  unfold Repaired at hrepaired
  rw [hrun] at hrepaired
  revert hrepaired
  decide

-- It dies after the first `CREATE TABLE`: from then on the database cannot be opened.
example : (leftBy [3]).runFor none =
    (.error (.failed (.alreadyExists .clip)), ⟨some [0, 0], [.clip]⟩) := rfl

end Database
end Clipse
