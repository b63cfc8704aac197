import Harpoon.Deploy.Envvars
import Harpoon.Git.Commands
import Harpoon.Git.Url
import Harpoon.Wire.Number

/-!
# The one-way upgrade of the journal

The first removal makes a backup of the schema-1 journal, proves it faithful, and only then is the removal
written, with the stamp of schema 2 (`journal_upgrade.rs`, and `repo_remove` of `git_cmds.rs`). Every file it
makes lies in one private directory beside the journal.

`R` is what a journal replays to.
-/

namespace Harpoon.Cli.JournalUpgrade

open Interact Git

/-! ## The files -/

def probe : String := ".space-probe"

def backupName (nowMs : Nat) : String := s!"pre-schema2-{nowMs}.sqlite3"

def sidecarName (nowMs : Nat) : String := s!"pre-schema2-{nowMs}.sqlite3.sha256"

/-! ## What an attempt asks -/

/-- What is found at the path of the backups directory. -/
inductive Entry where
  | absent
  | symlink
  | notDir
  | dir (mode uid : Nat)
  deriving DecidableEq, Repr

/-- What removing a file comes to. -/
inductive Removal where
  | removed
  | absent
  | failed (why : String)
  deriving DecidableEq, Repr

/-- A copy that failed, and whether it left a file. -/
structure CopyError where
  why : String
  left : Bool
  deriving DecidableEq, Repr

structure JournalFileFacts where
  integrity : String
  schema : Int
  rows : List String
  deriving DecidableEq, Repr

inductive UpgradeOp where
  | declaredSchema
  | journalSize
  | inspectBackups
  | createBackups
  /-- The mode and the owner of the backups directory. -/
  | statBackups
  | statJournalDir
  /-- Create a file that must not exist. -/
  | createNew (name : String)
  | writeBytes (bytes : Nat)
  | syncFile (name : String)
  | removeFile (name : String)
  | pathExists (name : String)
  | recordRows
  /-- `VACUUM INTO`. -/
  | backupInto (name : String)
  | setPermissions (name : String)
  | syncDir
  | statFile (name : String)
  | inspectFile (name : String)
  | replayFile (name : String)
  | readFile (name : String)
  | writeText (name text : String)
  /-- The stamp of schema 2 and the removal, in one transaction. -/
  | removeRegistration
  deriving DecidableEq, Repr

variable (R : Type)

def UpgradeOp.Answer : UpgradeOp → Type
  | .declaredSchema => Int
  | .journalSize | .statJournalDir | .statFile _ => Except String Nat
  | .inspectBackups => Except String Entry
  | .statBackups => Except String (Nat × Nat)
  | .removeFile _ => Removal
  | .pathExists _ => Bool
  | .recordRows => Except String (List String)
  | .backupInto _ => Except CopyError Unit
  | .inspectFile _ => Except String JournalFileFacts
  | .replayFile _ => Except String R
  | .readFile _ => Except String (List Nat)
  | .createBackups | .createNew _ | .writeBytes _ | .syncFile _ | .setPermissions _ | .syncDir | .writeText _ _
  | .removeRegistration => Except String Unit

abbrev UpgradeSig : Signature := ⟨UpgradeOp, UpgradeOp.Answer R⟩

abbrev Upgrading (α : Type) := Process (UpgradeSig R) Unit Fail α

variable {R}

def ask (op : UpgradeOp) : Upgrading R (op.Answer R) := Process.perform (S := UpgradeSig R) op

/-! ## The attempt -/

structure BackupReport where
  path : String
  digest : String
  records : Nat
  bytes : Nat
  deriving DecidableEq, Repr

def nothingWritten : String := "No removal was written; the journal is unchanged."

def fail (why : String) : Fail :=
  .journal s!"cannot make the journal backup that comes before the first removal: {why}. {nothingWritten}"

/-- Go on with a value, or fail with the error. -/
def orFail (why : String → Fail) {α : Type} (x : Except String α) : Upgrading R α := Process.ofExcept why x

def mustBePrivate (dir : String) : String := s!"{dir} must be mode 700 and owned by the journal's owner"

/-- A directory of mode 700, of the journal's owner. -/
def isPrivate (mode uid owner : Nat) : Bool := mode &&& 0o777 = 0o700 && uid = owner

/-- What stands at the path is a directory, or one is made. -/
def ensureDir (dir : String) : Entry → Upgrading R Unit
  | .symlink => throw (fail s!"{dir} is a symbolic link")
  | .notDir => throw (fail s!"{dir} is not a directory")
  | .dir _ _ => pure ()
  | .absent => do orFail (fun e => fail s!"cannot create {dir}: {e}") (← ask .createBackups)

/-- The mode and the owner of the directory are ours. -/
def refuseShared (dir : String) : Upgrading R Unit := do
  let facts ← orFail fail (← ask .statBackups)
  let owner ← orFail fail (← ask .statJournalDir)
  orFail fail (if isPrivate facts.1 facts.2 owner then .ok () else .error (mustBePrivate dir))

/-- A private directory of ours. -/
def privateBackupsDir (dir : String) : Upgrading R Unit := do
  ensureDir dir (← orFail (fun e => fail s!"cannot inspect {dir}: {e}") (← ask .inspectBackups))
  refuseShared dir

/-- Unsigned arithmetic of 64 bits that stops at the largest number. -/
def saturating (n : Nat) : Nat := min n 18446744073709551615

/-- The copy, and slack for the compaction and the sidecar. -/
def backupSpace (size : Nat) : Nat := saturating (saturating (size * 2) + 1048576)

/-- The pieces that are written, of at most one mebibyte. -/
def pieces (bytes : Nat) : List Nat :=
  List.replicate (bytes / 1048576) 1048576 ++ if bytes % 1048576 = 0 then [] else [bytes % 1048576]

/-- Write the pieces and flush them. -/
def fill : List Nat → Upgrading R (Except String Unit)
  | [] => ask (.syncFile probe)
  | n :: rest => do
    match ← ask (.writeBytes n) with
    | .ok _ => fill rest
    | .error e => return .error e

/-- Prove that the bytes can be stored: write them, flush them, and remove them. -/
def reserve (bytes : Nat) : Upgrading R (Except String Unit) := do
  match ← ask (.createNew probe) with
  | .error e => return .error e
  | .ok _ =>
    let result ← fill (pieces bytes)
    let _ ← ask (.removeFile probe)
    return result

section Backup

variable (dir live : String) (digest : List Nat → String) (nowMs : Nat)

/-- Remove what the attempt made, and fail. -/
def cleanup {α : Type} (why : Fail) : Upgrading R α := do
  let _ ← ask (.removeFile (backupName nowMs))
  let _ ← ask (.removeFile (sidecarName nowMs))
  throw why

/-- Go on with a value, or clean up and fail with the error. -/
def orCleanup (why : String → Fail) {α : Type} : Except String α → Upgrading R α
  | .ok a => pure a
  | .error e => cleanup nowMs (why e)

def alreadyExists : Fail := fail s!"{dir}/{backupName nowMs} already exists"

def refuseTaken : Upgrading R Unit := do
  match ← ask (.pathExists (backupName nowMs)) with
  | true => throw (alreadyExists dir nowMs)
  | false =>
    match ← ask (.pathExists (sidecarName nowMs)) with
    | true => throw (alreadyExists dir nowMs)
    | false => pure ()

/-- The copy is a schema-1 journal with the journal's records. -/
def checkFacts (before : List String) (facts : JournalFileFacts) : Except String Unit :=
  if facts.integrity ≠ "ok" then
    .error s!"SQLite's integrity check of the backup says {Deploy.Envvars.debugStr facts.integrity}"
  else if facts.schema > 1 then
    .error s!"the backup declares schema {facts.schema}; it must be the schema-1 journal an older build can read"
  else if facts.rows ≠ before then .error "the backup's records are not the journal's records, one for one"
  else if facts.rows.any (containsText "gitdrop") then
    .error "the journal already holds a removal record, so there is no schema-1 state to back up"
  else .ok ()

def checkMode (mode : Nat) : Except String Unit :=
  if mode &&& 0o777 = 0o600 then .ok () else .error "the backup is not mode 600"

def checkReplay [DecidableEq R] (restored replayed : R) : Except String Unit :=
  if replayed = restored then .ok () else .error "the backup does not replay to the state the journal has"

def checkUnchanged (before rows : List String) : Except String Unit :=
  if rows = before then .ok () else .error "the journal changed while it was being backed up"

def sidecarText (sum : String) (records : Nat) : String :=
  s!"{sum}  {backupName nowMs}\nrecords={records}\nschema=1\nsource={live}\ncreated-ms={nowMs}\n"

/-- Make the copy. -/
def copy : Upgrading R Unit := do
  match ← ask (.backupInto (backupName nowMs)) with
  | .ok _ => pure ()
  | .error e => cleanup nowMs (fail e.why)
  orCleanup nowMs (fun e => fail s!"cannot set the backup's permissions: {e}") (← ask (.setPermissions (backupName nowMs)))
  orCleanup nowMs (fun e => fail s!"cannot flush the backup: {e}") (← ask (.syncFile (backupName nowMs)))
  orCleanup nowMs (fun e => fail s!"cannot flush {dir}: {e}") (← ask .syncDir)

/-- Prove the copy. The number of its records. -/
def prove [DecidableEq R] (restored : R) (before : List String) : Upgrading R Nat := do
  orCleanup nowMs fail (checkMode (← orCleanup nowMs fail (← ask (.statFile (backupName nowMs)))))
  let facts ← orCleanup nowMs fail (← ask (.inspectFile (backupName nowMs)))
  orCleanup nowMs fail (checkFacts before facts)
  orCleanup nowMs fail (checkReplay restored (← orCleanup nowMs fail (← ask (.replayFile (backupName nowMs)))))
  orCleanup nowMs fail (checkUnchanged before (← orCleanup nowMs fail (← ask .recordRows)))
  return facts.rows.length

/-- Keep the digest beside the copy. -/
def keepDigest (records : Nat) : Upgrading R BackupReport := do
  let bytes ← orCleanup nowMs fail (← ask (.readFile (backupName nowMs)))
  orCleanup nowMs fail (← ask (.createNew (sidecarName nowMs)))
  orCleanup nowMs fail (← ask (.writeText (sidecarName nowMs) (sidecarText live nowMs (digest bytes) records)))
  orCleanup nowMs fail (← ask (.syncFile (sidecarName nowMs)))
  orCleanup nowMs (fun e => fail s!"cannot flush {dir}: {e}") (← ask .syncDir)
  return ⟨s!"{dir}/{backupName nowMs}", digest bytes, records, bytes.length⟩

/-- Make and prove the schema-1 backup. -/
def backupBeforeSchema2 [DecidableEq R] (restored : R) : Upgrading R BackupReport := do
  let size ← orFail fail (← ask .journalSize)
  privateBackupsDir dir
  orFail (fun e => fail s!"not enough free space in {dir} ({e})") (← reserve (backupSpace size))
  refuseTaken dir nowMs
  let before ← orFail fail (← ask .recordRows)
  copy dir nowMs
  let records ← prove nowMs restored before
  keepDigest dir live digest nowMs records

/-- The backup, when the journal declares a schema below that of removals. -/
def backupFirst [DecidableEq R] (restored : R) (declared : Int) : Upgrading R (Option BackupReport) :=
  if declared < 2 then some <$> backupBeforeSchema2 dir live digest nowMs restored else pure none

/-- The replay rules on a copy, and then the removal. -/
def remove (applies : Except String Unit) (report : Option BackupReport) : Upgrading R (Option BackupReport) := do
  orFail .refused applies
  orFail (fun e => .journal s!"cannot record the removal: {e}") (← ask .removeRegistration)
  return report

/-- The part of a removal that writes. -/
def upgrade [DecidableEq R] (restored : R) (applies : Except String Unit) : Upgrading R (Option BackupReport) := do
  remove applies (← backupFirst dir live digest nowMs restored (← ask .declaredSchema))

end Backup

end Harpoon.Cli.JournalUpgrade
