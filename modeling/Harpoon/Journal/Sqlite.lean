import Harpoon.Journal.File
import Harpoon.Journal.Config
import Harpoon.Journal.Git

/-!
# The journal in a database

`SqliteJournal` keeps each record as one row of a table, in a transaction of its own (`sqlite.rs`). A text
goes to the database as a C string, and comes back as one.

What the database answers is a parameter.
-/

namespace Harpoon.Journal

open Deploy Interact Wire

/-! ## C strings -/

/-- A C string ends at its first zero byte, so that a text with one cannot be one. -/
def cstring (s : String) : Except String Bytes :=
  if 0 ∈ utf8 s then .error "SQLite input contains NUL" else .ok (utf8 s ++ [0])

/-- The bytes that a C string says. -/
def cstrBytes (b : Bytes) : Bytes := b.takeWhile (· ≠ 0)

/-! ## Rows -/

structure Row where
  kind : Bytes
  body : Bytes
  deriving DecidableEq

/-- What the database answers to the calls of one insertion, an error in its own words. -/
structure Database where
  begin : Except String Unit
  prepare : Except String Unit
  bindKind : Except String Unit
  bindBody : Except String Unit
  step : Except String Unit
  commit : Except String Unit

/-- Every call succeeds. -/
def Database.works : Database := ⟨.ok (), .ok (), .ok (), .ok (), .ok (), .ok ()⟩

/-- The bytes that the database takes of a text. -/
def bindText (value : String) (answer : Except String Unit) : Except String Bytes := do
  let value ← cstring value
  answer
  return cstrBytes value

def insertRow (db : Database) (kind body : String) : Except String Row := do
  db.prepare
  let kind ← bindText kind db.bindKind
  let body ← bindText body db.bindBody
  db.step
  return ⟨kind, body⟩

/-- The transaction of one insertion. -/
def transaction (db : Database) (kind body : String) : Except String Row := do
  db.begin
  let row ← insertRow db kind body
  db.commit
  return row

/-- Insert a row; a transaction that fails is rolled back. -/
def insert (db : Database) (rows : List Row) (kind body : String) : Except JournalError Unit × List Row :=
  match transaction db kind body with
  | .ok row => (.ok (), rows ++ [row])
  | .error e => (.error (.io e), rows)

/-- The text of a row's body. -/
def bodyText (row : Row) : Except String String :=
  match fromUtf8 (cstrBytes row.body) with
  | some text => .ok text
  | none => .error "SQLite record is not UTF-8"

/-! ## Records -/

def Record.kind : Record → String
  | .snapshot _ => "snapshot"
  | .ledger _ => "ledger"

/-- Write a record. -/
def Record.insert (db : Database) (rows : List Row) (r : Record) : Except JournalError Unit × List Row :=
  Journal.insert db rows r.kind r.encode

end Harpoon.Journal

/-!
## The rows of a journal

A journal in a database has one row for each record, the line of the record of whatever family; among them the recorded log of a step
(`steplog.rs`).
-/

namespace Harpoon.Journal

open Deploy Wire

structure StepLogRec where
  deployment : DeploymentId
  step : Step
  text : String
  /-- The redaction failed: the output was never stored. -/
  withheld : Bool
  truncated : Bool
  atMs : Nat

def stepLogFields (r : StepLogRec) : List String :=
  ["deplog", "1", r.deployment.asStr, stepStr r.step, flagStr r.withheld, flagStr r.truncated, r.atMs.repr,
    if r.text = "" then "-" else hexText r.text]

/-- A record of any family. -/
inductive AnyRecord where
  | snapshot (d : Deployment)
  | ledger (r : LedgerRecord)
  | control (r : Control.ControlRecord)
  | config (r : Config.ConfigRecord)
  | git (r : Git.GitRecord)
  | stepLog (r : StepLogRec)

namespace AnyRecord

/-- The fields of the record's body. -/
def fields : AnyRecord → List String
  | .snapshot d => snapshotFields d
  | .ledger r => ledgerFields r
  | .control r => Control.recordFields r
  | .config r => Config.recordFields r
  | .git r => Git.recordFields r
  | .stepLog r => stepLogFields r

/-- The row of the record. -/
def encode (r : AnyRecord) : String := frame (joined '\t' r.fields)

/-- A registration was removed. -/
def isRemoval : AnyRecord → Bool
  | .git (.removed _) => true
  | .snapshot _ | .ledger _ | .control _ | .config _ | .git (.repo _) | .git (.seen _) | .git (.source _) | .stepLog _ => false

end AnyRecord

end Harpoon.Journal
