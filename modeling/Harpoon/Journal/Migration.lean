import Harpoon.Journal.Sqlite

/-!
# From the old journal to the database

A runtime directory has the journal file of an earlier version, a database, or both. `SqliteJournal::open` imports
the old journal into a database that has neither a deployment nor a ledger entry; until then
`SqliteJournal::read_only` reads the old journal. The old journal stays where it is (`sqlite.rs`).

What the database answers is a parameter, and a transaction is there whole or not at all. Locks, file modes and
the paths in error texts are left out.
-/

namespace Harpoon.Journal

open Deploy Wire

/-! ## What errors say -/

def FormatError.toStr : FormatError → String
  | .corrupt line why => s!"journal line {line} is damaged: {why}"
  | .badHeader why => s!"not a usable journal: {why}"
  | .unsupportedVersion v => s!"journal file version {v} is not supported (this build reads {fileVersion})"
  | .inconsistent why => s!"journal contents contradict each other: {why}"

def FileJournal.OpenError.toStr : FileJournal.OpenError → String
  | .failed op why => s!"{op}: {why}"
  | .format e => e.toStr
  | .notAJournal => "the file is not a Harpoon journal; it was left untouched"

/-! ## What a directory holds -/

structure Tables where
  /-- The newest schema that the database declares. -/
  schema : Nat
  rows : List Row
  deriving DecidableEq

inductive DbFile where
  | absent
  /-- Created, and without its tables. -/
  | blank
  | tables (t : Tables)
  deriving DecidableEq

structure Dir where
  /-- The journal file of an earlier version. -/
  legacy : Option Bytes
  db : DbFile
  deriving DecidableEq

/-- The schema of a journal that may hold a removed registration. -/
def removalSchema : Nat := 2

def supportedSchema : Nat := 2

def checkSchema (declared : Nat) : Except String Unit :=
  if supportedSchema < declared then
    .error s!"this deployment journal was written by a newer Harpoon (journal schema {declared}); this build reads up to schema {supportedSchema}. Update Harpoon. The journal is not damaged and was not changed"
  else .ok ()

namespace DbFile

/-- The file is created before SQLite opens it. -/
def create : DbFile → DbFile
  | absent => blank
  | db => db

/-- `CREATE TABLE IF NOT EXISTS`, and `INSERT OR IGNORE` of version 1. -/
def migrate : DbFile → Tables
  | absent | blank => ⟨1, []⟩
  | tables t => { t with schema := max t.schema 1 }

end DbFile

section

variable {β σ : Type} (keep : Keeping β σ)

/-! ## Reading -/

/-- The old journal, read without changing it (`read_only` of `lib.rs`). -/
def readJournal : Option Bytes → Except FileJournal.OpenError (FileJournal.Restored σ)
  | none => .error (.failed "cannot read" "No such file or directory (os error 2)")
  | some bytes => do
    let found ← (recover keep.decode bytes).mapError .format
    if FileJournal.isOwn found bytes then do
      let state ← (replay keep found.lines).mapError .format
      return ⟨state, FileJournal.discarded found.tail, ⟨[], []⟩⟩
    else .error .notAJournal

/-- The records of the old journal. -/
def lines : Option Bytes → Except FileJournal.OpenError (List (Line β))
  | none => .error (.failed "cannot read" "No such file or directory (os error 2)")
  | some bytes => do
    let found ← (recover keep.decode bytes).mapError .format
    return found.lines

/-- The record of a row. -/
def rowLine (row : Row) : Except String (Line β) := do
  let body ← bodyText row
  (decodeLine keep.decode body).mapError fun e => s!"invalid SQLite record: {e}"

def restoreTables (t : Tables) : Except String (FileJournal.Restored σ) := do
  checkSchema t.schema
  let lines ← t.rows.mapM (rowLine keep)
  let state ← (replay keep lines).mapError fun e => s!"invalid SQLite state: {e.toStr}"
  return ⟨state, 0, ⟨[], []⟩⟩

def restore : DbFile → Except String (FileJournal.Restored σ)
  | .absent => .error "unable to open database file"
  | .blank => .error "no such table: records"
  | .tables t => restoreTables keep t

/-- Is the old journal still the one that counts? -/
def legacyCounts (d : Dir) (found : FileJournal.Restored σ) : Bool :=
  found.state.deployments.isEmpty && found.state.ledger.entries.isEmpty && d.legacy.isSome

def legacyRead (d : Dir) : Except String (FileJournal.Restored σ) :=
  (readJournal keep d.legacy).mapError fun e => s!"legacy journal: {e.toStr}"

/-- `SqliteJournal::read_only`. -/
def readOnly (d : Dir) : Except String (FileJournal.Restored σ) :=
  if d.db = .absent then legacyRead keep d
  else do
    let found ← restore keep d.db
    if legacyCounts d found then legacyRead keep d else return found

/-! ## Opening -/

variable (insertion : β → String × String)

/-- The kind and the body of a record's row. A header is not kept. -/
def rowOf : Line β → Option (String × String)
  | .header _ => none
  | .snapshot d => some ("snapshot", encodeSnapshot d)
  | .ledger r => some ("ledger", encodeLedger r)
  | .control c => some ("control", Control.encode c)
  | .other r => some (insertion r)

def cannotMigrate (e : String) : String := s!"cannot migrate legacy journal: {e}"

/-- Insert every record in one transaction. -/
def importLines (db : Database) (rows : List Row) (old : List (Line β)) : Except String (List Row) := do
  let imported ← (old.filterMap (rowOf insertion)).mapM fun x => insertRow db x.1 x.2
  db.commit
  return rows ++ imported

/-- The rows after the old journal was imported. A transaction that fails is rolled back. -/
def importLegacy (db : Database) (d : Dir) (rows : List Row) : Except String (List Row) := do
  let old ← (lines keep d.legacy).mapError fun e => cannotMigrate e.toStr
  db.begin
  (importLines insertion db rows old).mapError cannotMigrate

/-- What is left once the tables are there: they are read, and the old journal is imported if it still counts. -/
def openTables (db : Database) (d : Dir) (t : Tables) : Except String (FileJournal.Restored σ) × Tables :=
  match restoreTables keep t with
  | .error e => (.error e, t)
  | .ok found =>
    if legacyCounts d found then
      match importLegacy keep insertion db d t.rows with
      | .error e => (.error e, t)
      | .ok rows => (restoreTables keep { t with rows }, { t with rows })
    else (.ok found, t)

/-- `SqliteJournal::open`: what it answers, and the directory after it. -/
def openDir (db : Database) (d : Dir) : Except String (FileJournal.Restored σ) × Dir :=
  let opened := openTables keep insertion db d d.db.migrate
  (opened.1, { d with db := .tables opened.2 })

/-- What a process that opens the directory can leave, wherever it is stopped: before it created the file, before
its tables are there, before the import is committed, or after that. -/
def openStops (db : Database) (d : Dir) : List Dir :=
  [d, { d with db := d.db.create }, { d with db := .tables d.db.migrate }, (openDir keep insertion db d).2]

/-! ## Appending -/

/-- Append a record. The removal of a registration stamps the schema in the same transaction. -/
def appendRow (db : Database) (t : Tables) (stamp : Bool) (kind body : String) : Except JournalError Unit × Tables :=
  match transaction db kind body with
  | .ok row => (.ok (), ⟨if stamp then max t.schema removalSchema else t.schema, t.rows ++ [row]⟩)
  | .error e => (.error (.io e), t)

end

end Harpoon.Journal
