import Harpoon.Journal.Replay
import Harpoon.Interact.Storage

/-!
# The journal on a file

`FileJournal` appends each record to one file, as a line that is then synced. After a write that failed it
refuses every further one: what the file then holds is found out when it is opened again, where a torn last
line is cut off (`deploy-journal`).

The lock, and the paths in the error texts, are left out: one process has the file.
-/

namespace Harpoon.Journal

open Deploy Interact Wire

/-- What a file journal is given to keep. -/
inductive Record where
  | snapshot (d : Deployment)
  | ledger (r : LedgerRecord)

namespace Record

def encode : Record → String
  | .snapshot d => encodeSnapshot d
  | .ledger r => encodeLedger r

/-- The record as a reader gets it. -/
def line {β : Type} : Record → Line β
  | .snapshot d => .snapshot d
  | .ledger r => .ledger r

end Record

/-- The bytes of a line. -/
def lineBytes (line : String) : Bytes := utf8 line ++ [newline]

structure Stats where
  appends : Nat
  fileSyncs : Nat
  dirSyncs : Nat
  deriving DecidableEq, Repr

structure FileJournal where
  /-- The bytes of whole records, as far as this handle knows. -/
  len : Nat
  /-- Why no further write is made, once one failed. -/
  broken : Option String
  stats : Stats
  deriving DecidableEq, Repr

/-- Code of the journal's handle. -/
abbrev Filing (ε α : Type) := Process WalSig FileJournal ε α

namespace FileJournal

/-! ## Appending -/

/-- Both operations, the second only after the first. -/
def truncateAndSync {ε : Type} (len : Nat) : Filing ε WalAnswer := do
  match ← Process.perform (S := WalSig) (.truncate len) with
  | .ok => Process.perform (S := WalSig) .sync
  | .failed why done => return .failed why done

def unusable (why : String) : String :=
  s!"the journal is unusable after an earlier failed write ({why}); reopen it to recover"

/-- What is said of a write that failed, by whether the torn line could be cut off. -/
def appendFailed (why : String) : WalAnswer → String
  | .ok => s!"append failed: {why}"
  | .failed _ _ => s!"append failed: {why} (tail not cleaned)"

def appendLine (line : String) : Filing JournalError Unit := do
  let j ← get
  match j.broken with
  | some why => throw (.io (unusable why))
  | none =>
    set { j with stats := { j.stats with appends := j.stats.appends + 1 } }
    match ← Process.perform (S := WalSig) (.append (lineBytes line)) with
    | .failed why _ =>
      -- Part of the line may be in the file. Nothing more is written through this handle.
      let healed ← truncateAndSync j.len
      modify fun j => { j with broken := some (appendFailed why healed) }
      throw (.io s!"journal append failed: {why}")
    | .ok =>
      modify fun j => { j with stats := { j.stats with fileSyncs := j.stats.fileSyncs + 1 } }
      match ← Process.perform (S := WalSig) .sync with
      | .failed why _ =>
        -- The record may be durable or not; a sync is never retried.
        modify fun j => { j with broken := some s!"sync failed: {why}" }
        throw (.io s!"journal sync failed: {why}")
      | .ok => modify fun j => { j with len := j.len + (lineBytes line).length }

def persist (d : Deployment) : Filing JournalError Unit := appendLine (encodeSnapshot d)

def record (r : LedgerRecord) : Filing JournalError Unit := appendLine (encodeLedger r)

def append : Record → Filing JournalError Unit
  | .snapshot d => persist d
  | .ledger r => record r

/-! ## Opening -/

inductive OpenError where
  | failed (op why : String)
  /-- A record is damaged, the version is unknown, or the records contradict each other. -/
  | format (e : FormatError)
  /-- The file does not begin like a journal. -/
  | notAJournal

/-- What opening a journal finds in it. -/
structure Restored (σ : Type) where
  state : State σ
  discardedTailBytes : Nat
  startup : StartupReport

def discarded : Tail → Nat
  | .clean => 0
  | .partialDiscarded n => n

/-- An error of the journal as Rust prints it for debugging. -/
def debug : JournalError → String
  | .crash => "Crash"
  | .io message => s!"Io({Envvars.debugStr message})"

section

variable {β σ : Type}

/-- Cut off a torn tail. -/
def cutTail (found : Recovered β) : Filing OpenError Unit := do
  if 0 < discarded found.tail then
    match ← truncateAndSync found.validLen with
    | .failed why _ => throw (.failed "cannot cut off the torn tail of" why)
    | .ok => modify fun j => { j with len := found.validLen, stats := { j.stats with fileSyncs := j.stats.fileSyncs + 1 } }

/-- The file has no header yet: its directory entry is made durable, and the header is written. -/
def writeHeader (found : Recovered β) : Filing OpenError Unit := do
  if !found.hasHeader then
    match ← Process.perform (S := WalSig) .syncDir with
    | .failed why _ => throw (.failed "cannot sync the directory" why)
    | .ok =>
      modify fun j => { j with stats := { j.stats with dirSyncs := j.stats.dirSyncs + 1 } }
      match ← Process.attempt (appendLine encodeHeader) with
      | .error e => throw (.failed "cannot write the header to" (debug e))
      | .ok () => return ()

/-- A file without a header is empty, or begins with a part of one: it is nobody else's. -/
def isOwn (found : Recovered β) (bytes : Bytes) : Bool :=
  found.hasHeader || (bytes.drop found.validLen).isPrefixOf (utf8 encodeHeader)

/-- Open the journal whose file holds `bytes`. -/
def openWith (keep : Keeping β σ) (bytes : Bytes) : Filing OpenError (Restored σ) := do
  let found ← Process.ofExcept .format (recover keep.decode bytes)
  if !isOwn found bytes then throw .notAJournal
  else
    let state ← Process.ofExcept .format (replay keep found.lines)
    set ({ len := bytes.length, broken := none, stats := ⟨0, 0, 0⟩ } : FileJournal)
    cutTail found
    writeHeader found
    return ⟨state, discarded found.tail, ⟨[], []⟩⟩

/-- Write the snapshots that changed. -/
def persistChanged : List (Deployment × Deployment) → Filing JournalError Unit
  | [] => return ()
  | (old, new) :: rest =>
    if old = new then persistChanged rest
    else do
      persist new
      persistChanged rest

/-- Mark incomplete deployments interrupted, and write each change. -/
def markInterrupted (found : Restored σ) (nowMs : Nat) : Filing JournalError (Restored σ) := do
  let after := recoverOnStart found.state.deployments nowMs
  persistChanged (found.state.deployments.zip after.1)
  return { found with state := { found.state with deployments := after.1 }, startup := after.2 }

def cannotRecord : String := "cannot record interrupted deployments:"

/-- Open the journal, and mark incomplete deployments interrupted. -/
def openRecoveredWith (keep : Keeping β σ) (bytes : Bytes) (nowMs : Nat) : Filing OpenError (Restored σ) := do
  let found ← openWith keep bytes
  match ← Process.attempt (markInterrupted found nowMs) with
  | .error e => throw (.failed cannotRecord (debug e))
  | .ok found => return found

end

end FileJournal

end Harpoon.Journal
