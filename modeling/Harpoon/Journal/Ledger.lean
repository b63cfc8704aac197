import Harpoon.Deploy.Ledger
import Harpoon.Journal.Frame

/-!
# Ledger records as lines

Free text is escaped, so that no field holds a tab or a line break (`ledger.rs`).
-/

namespace Harpoon.Deploy

def Disposition.asStr : Disposition → String
  | .retain => "retain"
  | .removeOnFailure => "remove_on_failure"
  | .removeAlways => "remove_always"

def Disposition.parse : String → Option Disposition
  | "retain" => some .retain
  | "remove_on_failure" => some .removeOnFailure
  | "remove_always" => some .removeAlways
  | _ => none

def ResourceKind.parse : String → Option ResourceKind
  | "image" => some .image
  | "container" => some .container
  | "port" => some .portLease
  | _ => none

end Harpoon.Deploy

namespace Harpoon.Journal

open Deploy Wire

/-! ## Escapes -/

def escChar : Char → List Char
  | '\\' => ['\\', '\\']
  | '\t' => ['\\', 't']
  | '\n' => ['\\', 'n']
  | '\r' => ['\\', 'r']
  | c => [c]

def esc (s : String) : String := String.ofList (s.toList.flatMap escChar)

/-- The character that an escape stands for. -/
def escaped : Char → Option Char
  | '\\' => some '\\'
  | 't' => some '\t'
  | 'n' => some '\n'
  | 'r' => some '\r'
  | _ => none

def unescChars : List Char → Option (List Char)
  | [] => some []
  | ['\\'] => none
  | '\\' :: c :: cs => do
    let d ← escaped c
    let ds ← unescChars cs
    return d :: ds
  | c :: cs => do
    let ds ← unescChars cs
    return c :: ds

def unesc (s : String) : Option String := String.ofList <$> unescChars s.toList

/-! ## Records -/

/-- The serialized token of a conflict outcome. -/
def conflictToken : ConflictCause → String
  | .dockerRefused => "conflict-docker-refused"
  | .notExclusive => "conflict-not-exclusive"

/-- The token of an outcome, and its message. -/
def cleanupFields : CleanupOutcome → String × String
  | .removed => ("removed", "")
  | .alreadyAbsent => ("absent", "")
  | .failed m => ("failed", esc m)
  | .refused m => ("refused", esc m)
  | .conflict c m => (conflictToken c, esc m)

/-- The fields of a record's body. -/
def ledgerFields : LedgerRecord → List String
  | .intent key app deployment disposition atMs =>
    ["intent", key.kind.asStr, esc key.name, app.asStr, deployment.asStr, disposition.asStr, atMs.repr]
  | .receipt key deployment id atMs =>
    ["receipt", key.kind.asStr, esc key.name, deployment.asStr, esc id, atMs.repr]
  | .cleanupAttempt key deployment atMs =>
    ["attempt", key.kind.asStr, esc key.name, deployment.asStr, atMs.repr]
  | .cleanupResult key deployment outcome atMs =>
    ["result", key.kind.asStr, esc key.name, deployment.asStr, (cleanupFields outcome).1,
      (cleanupFields outcome).2, atMs.repr]

def encodeLedger (r : LedgerRecord) : String := frame (joined '\t' (ledgerFields r))

def readKey (kind name : String) : Except String ResourceKey := do
  return ⟨← need "bad kind" (ResourceKind.parse kind), ← need "bad escape" (unesc name)⟩

def readDeployment (s : String) : Except String DeploymentId := readId .deployment "bad deployment id" s

def readOutcome (outcome message : String) : Except String CleanupOutcome :=
  match outcome with
  | "removed" => .ok .removed
  | "absent" => .ok .alreadyAbsent
  | "failed" => .failed <$> need "bad escape" (unesc message)
  | "refused" => .refused <$> need "bad escape" (unesc message)
  | "conflict-docker-refused" => .conflict .dockerRefused <$> need "bad escape" (unesc message)
  | "conflict-not-exclusive" => .conflict .notExclusive <$> need "bad escape" (unesc message)
  | _ => .error "bad outcome"

/-- A record from the fields of its body. -/
def decodeLedgerFields (f : List String) : Except String LedgerRecord :=
  match f.headD "", f.drop 1 with
  | "intent", [kind, name, app, deployment, disposition, atMs] => do
    let key ← readKey kind name
    let app ← readId .application "bad application id" app
    let deployment ← readDeployment deployment
    let disposition ← need "bad disposition" (Disposition.parse disposition)
    return .intent key app deployment disposition (← number "bad number" atMs)
  | "receipt", [kind, name, deployment, id, atMs] => do
    let key ← readKey kind name
    let deployment ← readDeployment deployment
    let id ← need "bad escape" (unesc id)
    return .receipt key deployment id (← number "bad number" atMs)
  | "attempt", [kind, name, deployment, atMs] => do
    let key ← readKey kind name
    let deployment ← readDeployment deployment
    return .cleanupAttempt key deployment (← number "bad number" atMs)
  | "result", [kind, name, deployment, outcome, message, atMs] => do
    let key ← readKey kind name
    let deployment ← readDeployment deployment
    let outcome ← readOutcome outcome message
    return .cleanupResult key deployment outcome (← number "bad number" atMs)
  | _, _ => .error "unknown record"

def decodeLedger (line : String) : Except String LedgerRecord := do
  let (crc, body) ← unframe line
  checked crc body
  decodeLedgerFields (fields '\t' body)

end Harpoon.Journal
