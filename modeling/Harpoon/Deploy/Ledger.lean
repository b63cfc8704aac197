import Harpoon.Deploy.Ids
import Harpoon.Keyed.Rows

/-!
# The resource ledger

Every external object the engine may create (an image, a container, a port lease) has an entry in
the ledger, named before the object exists (`ledger.rs`). An **intent** is written before the object
is created and a **receipt**, with the id the runtime returned, after it; a removal is bracketed by an
**attempt** and a **result**. `Ledger.apply` is the only way to change a ledger.

`plan` decides, from the ledger and from what the runtime reports, what to do about the objects of
deployments that ended. Labels are the only proof of ownership.
-/

namespace Harpoon.Deploy

/-! ## Identity -/

inductive ResourceKind where
  | image
  | container
  /-- A host port reserved for the deployment. Releasing it is a ledger-only operation. -/
  | portLease
  deriving DecidableEq, Repr

def ResourceKind.asStr : ResourceKind → String
  | .image => "image"
  | .container => "container"
  | .portLease => "port"

/-- What the ledger knows an object by before the runtime has given it an id. -/
structure ResourceKey where
  kind : ResourceKind
  /-- Image tag, container name, or the decimal port number. -/
  name : String
  deriving DecidableEq, Repr

/-- What happens to the object when the deployment ends. -/
inductive Disposition where
  /-- Never cleaned automatically. -/
  | retain
  /-- Cleaned only if the deployment did not succeed. -/
  | removeOnFailure
  /-- Cleaned whatever the outcome. -/
  | removeAlways
  deriving DecidableEq, Repr

/-! ## Records -/

/-- Why a deletion that Harpoon was entitled to attempt did not happen. -/
inductive ConflictCause where
  | dockerRefused
  | notExclusive
  deriving DecidableEq, Repr

def ConflictCause.asStr : ConflictCause → String
  | .dockerRefused => "docker-refused"
  | .notExclusive => "not-exclusive"

inductive CleanupOutcome where
  | removed
  /-- Nothing by that identity exists any more. -/
  | alreadyAbsent
  /-- The removal was tried and failed; the object may still exist. -/
  | failed (message : String)
  /-- An object with this identity exists but is not provably Harpoon's: it was not touched. -/
  | refused (message : String)
  /-- Ownership was shown but the deletion did not happen because of a conflict. -/
  | conflict (cause : ConflictCause) (message : String)
  deriving DecidableEq, Repr

/-- One durable write. -/
inductive LedgerRecord where
  | intent (key : ResourceKey) (app : ApplicationId) (deployment : DeploymentId)
      (disposition : Disposition) (atMs : Nat)
  | receipt (key : ResourceKey) (deployment : DeploymentId) (id : String) (atMs : Nat)
  | cleanupAttempt (key : ResourceKey) (deployment : DeploymentId) (atMs : Nat)
  | cleanupResult (key : ResourceKey) (deployment : DeploymentId) (outcome : CleanupOutcome)
      (atMs : Nat)
  deriving DecidableEq, Repr

namespace LedgerRecord

def deployment : LedgerRecord → DeploymentId
  | .intent _ _ d _ _ | .receipt _ d _ _ | .cleanupAttempt _ d _ | .cleanupResult _ d _ _ => d

def key : LedgerRecord → ResourceKey
  | .intent k _ _ _ _ | .receipt k _ _ _ | .cleanupAttempt k _ _ | .cleanupResult k _ _ _ => k

def isIntent : LedgerRecord → Bool
  | .intent _ _ _ _ _ => true
  | _ => false

end LedgerRecord

/-! ## Entries -/

inductive Released where
  | removed
  | alreadyAbsent
  deriving DecidableEq, Repr

inductive EntryState where
  /-- Intent recorded; no receipt. The object may or may not exist. -/
  | intended
  /-- Receipt recorded: the runtime returned this id. -/
  | created
  | released (how : Released)
  | cleanupFailed (message : String)
  | cleanupConflict (cause : ConflictCause) (message : String)
  | refused (message : String)
  deriving DecidableEq, Repr

structure Entry where
  key : ResourceKey
  app : ApplicationId
  deployment : DeploymentId
  disposition : Disposition
  /-- `none` until a receipt exists. -/
  id : Option String
  state : EntryState
  cleanupAttempts : UInt32
  /-- An attempt was recorded and its result has not been. Exactly one result may consume it. -/
  cleanupOutstanding : Bool
  intentMs : Nat
  deriving DecidableEq, Repr

namespace Entry

/-- What an entry is found by. -/
def ref (e : Entry) : DeploymentId × ResourceKey := (e.deployment, e.key)

def isReleased (e : Entry) : Bool :=
  match e.state with
  | .released _ => true
  | _ => false

def isRefused (e : Entry) : Bool :=
  match e.state with
  | .refused _ => true
  | _ => false

/-- Nothing more will be done about the object. -/
def isSettled (e : Entry) : Bool := e.isReleased || e.isRefused

end Entry

inductive LedgerError where
  | duplicateIntent (key : ResourceKey)
  | unknownEntry (key : ResourceKey)
  /-- A receipt for something never intended, or a second, different id for the same entry. -/
  | receiptConflict (key : ResourceKey)
  /-- A result without a preceding attempt, or an attempt on an entry that is settled. -/
  | outOfOrder (key : ResourceKey) (what : String)
  /-- A port lease whose port another deployment still holds. -/
  | leaseHeld (port : String) (holder : DeploymentId)
  deriving DecidableEq, Repr

namespace LedgerError

def display : LedgerError → String
  | .duplicateIntent k => s!"ledger: duplicate intent for {k.kind.asStr} {k.name}"
  | .unknownEntry k => s!"ledger: no entry for {k.kind.asStr} {k.name}"
  | .receiptConflict k => s!"ledger: conflicting receipt for {k.kind.asStr} {k.name}"
  | .leaseHeld port holder =>
    s!"ledger: port {port} is already leased by deployment {holder.asStr} and not released"
  | .outOfOrder k what => s!"ledger: {what} (out of order) for {k.kind.asStr} {k.name}"

end LedgerError

/-! ## The ledger -/

structure Ledger where
  entries : List Entry
  deriving DecidableEq, Repr

namespace Ledger

def new : Ledger := ⟨[]⟩

def find (l : Ledger) (deployment : DeploymentId) (key : ResourceKey) : Option Entry :=
  Keyed.lookup Entry.ref (deployment, key) l.entries

/-- Change the entry that `find` finds. -/
def modifyEntry (l : Ledger) (deployment : DeploymentId) (key : ResourceKey) (f : Entry → Entry) :
    Ledger :=
  ⟨Keyed.modify Entry.ref (deployment, key) f l.entries⟩

def push (l : Ledger) (e : Entry) : Ledger := ⟨l.entries ++ [e]⟩

/-- The entry of another deployment that holds the same port and is not released. -/
def leaseHolder (l : Ledger) (deployment : DeploymentId) (key : ResourceKey) : Option Entry :=
  if key.kind = .portLease then
    l.entries.find? fun e => e.key = key ∧ e.deployment ≠ deployment ∧ !e.isReleased
  else none

def settledAttempt : String := "cleanup attempt on a settled entry"

def strayResult : String := "cleanup result without an outstanding attempt"

def strayConflict : String :=
  "a conflict outcome belongs only to a retained image that has a receipt"

/-- The state an entry takes from the result of its cleanup. -/
def stateOf : CleanupOutcome → EntryState
  | .removed => .released .removed
  | .alreadyAbsent => .released .alreadyAbsent
  | .failed m => .cleanupFailed m
  | .refused m => .refused m
  | .conflict c m => .cleanupConflict c m

/-- A retained image that has a receipt. -/
def mayConflict (e : Entry) : Bool :=
  e.key.kind = .image && e.disposition = .retain && e.id.isSome

def isConflict : CleanupOutcome → Bool
  | .conflict _ _ => true
  | _ => false

/-- Apply one record in place: what the call returns, and the ledger it leaves. -/
def apply (l : Ledger) : LedgerRecord → Except LedgerError Unit × Ledger
  | .intent key app deployment disposition atMs =>
    if (l.find deployment key).isSome then
      (.error (.duplicateIntent key), l)
    else
      match l.leaseHolder deployment key with
      | some h => (.error (.leaseHeld key.name h.deployment), l)
      | none =>
        (.ok (), l.push
          { key, app, deployment, disposition, id := none, state := .intended,
            cleanupAttempts := 0, cleanupOutstanding := false, intentMs := atMs })
  | .receipt key deployment id _ =>
    match l.find deployment key with
    | none => (.error (.receiptConflict key), l)
    | some e =>
      match e.id, e.state with
      | none, .intended =>
        (.ok (), l.modifyEntry deployment key fun e => { e with id := some id, state := .created })
      | some existing, _ =>
        -- The same id again is an idempotent replay.
        if existing = id then (.ok (), l) else (.error (.receiptConflict key), l)
      | none, _ => (.error (.receiptConflict key), l)
  | .cleanupAttempt key deployment _ =>
    match l.find deployment key with
    | none => (.error (.unknownEntry key), l)
    | some e =>
      if e.isSettled then
        (.error (.outOfOrder key settledAttempt), l)
      else
        -- A second attempt while one is outstanding is a retry and takes over.
        (.ok (), l.modifyEntry deployment key fun e =>
          { e with cleanupAttempts := e.cleanupAttempts + 1, cleanupOutstanding := true })
  | .cleanupResult key deployment outcome _ =>
    match l.find deployment key with
    | none => (.error (.unknownEntry key), l)
    | some e =>
      if !e.cleanupOutstanding then
        (.error (.outOfOrder key strayResult), l)
      else if isConflict outcome && !mayConflict e then
        (.error (.outOfOrder key strayConflict), l)
      else
        (.ok (), l.modifyEntry deployment key fun e =>
          { e with cleanupOutstanding := false, state := stateOf outcome })

/-- Rebuild from the journal. Stops at the first record that cannot apply and says which. -/
def replayFrom (l : Ledger) (i : Nat) : List LedgerRecord → Except (Nat × LedgerError) Ledger
  | [] => .ok l
  | r :: rs =>
    match l.apply r with
    | (.ok (), l) => l.replayFrom (i + 1) rs
    | (.error e, _) => .error (i, e)

def replay (records : List LedgerRecord) : Except (Nat × LedgerError) Ledger :=
  new.replayFrom 0 records

end Ledger

/-! ## What the runtime reports -/

/-- An object as the runtime reports it. -/
structure Observed where
  kind : ResourceKind
  name : String
  id : String
  labels : List (String × String)
  deriving DecidableEq, Repr

namespace Observed

def label (o : Observed) (k : String) : Option String :=
  (o.labels.find? fun l => l.1 = k).map (·.2)

/-- Carries `managed=true`, this application and this deployment: all three, exactly. -/
def labelledFor (o : Observed) (app : ApplicationId) (dep : DeploymentId) : Bool :=
  o.label Labels.managed = some "true" && o.label Labels.app = some app.asStr
    && o.label Labels.deployment = some dep.asStr

def harpoonDeployment (o : Observed) : Option String :=
  if o.label Labels.managed = some "true" then o.label Labels.deployment else none

end Observed

inductive EndState where
  | succeeded
  /-- Failed, cancelled or interrupted. -/
  | notSucceeded
  /-- A cutover began and the replacement failed: the candidate is kept for inspection. -/
  | failedCutover
  deriving DecidableEq, Repr

/-- What the runtime is told to remove one object, with the labels it must verify again. -/
structure RemoveRequest where
  kind : ResourceKind
  id : String
  name : String
  app : ApplicationId
  deployment : DeploymentId
  deriving DecidableEq, Repr

inductive RemoveResult where
  | removed
  | alreadyAbsent
  | refused (why : String)
  | conflict (cause : ConflictCause) (why : String)
  deriving DecidableEq, Repr

/-! ## The plan -/

/-- An entry named by its deployment and key. -/
abbrev EntryRef := DeploymentId × ResourceKey

inductive Action where
  /-- Remove this verified object. `adopt`: no receipt exists yet, so record one first. -/
  | remove (entry : EntryRef) (observed : Observed) (adopt : Bool)
  /-- Record the id of an object that is ours but was never receipted, and keep it. -/
  | adopt (entry : EntryRef) (observed : Observed)
  /-- Release a port lease. -/
  | releaseLease (entry : EntryRef)
  /-- Nothing by that identity exists. -/
  | markAbsent (entry : EntryRef)
  /-- An object with this identity exists but is not provably ours. Untouched. -/
  | refuse (entry : EntryRef) (reason : String)
  /-- Labelled as ours but not in the ledger. Reported, never removed. -/
  | reportOnly (observed : Observed) (reason : String)
  deriving DecidableEq, Repr

namespace Action

/-- The entry an action is about. -/
def target? : Action → Option EntryRef
  | .remove e _ _ | .adopt e _ | .releaseLease e | .markAbsent e | .refuse e _ => some e
  | .reportOnly _ _ => none

def isReleaseLease : Action → Bool
  | .releaseLease _ => true
  | _ => false

end Action

def shouldClean : Disposition → EndState → Bool
  | .retain, _ => false
  | .removeOnFailure, ended => ended = .notSucceeded
  | .removeAlways, _ => true

/-- How the deployment ended, if it did. -/
def endedAs (ended : List (DeploymentId × EndState)) (d : DeploymentId) : Option EndState :=
  (ended.find? fun p => p.1 = d).map (·.2)

def notOurs (e : Entry) : String :=
  s!"a {e.key.kind.asStr} named {e.key.name} exists but does not carry this deployment's Harpoon labels; not touched"

def unknownObject : String :=
  "labelled for a finished deployment but absent from the ledger; not removed"

/-- The object an entry is matched with: by its recorded id, or by its intended name while it has
no receipt. -/
def foundFor (e : Entry) (observed : List Observed) : Option Observed :=
  let byId := e.id.bind fun id => observed.find? fun o => o.kind = e.key.kind ∧ o.id = id
  byId.or
    (if e.id.isNone then observed.find? fun o => o.kind = e.key.kind ∧ o.name = e.key.name
     else none)

/-- What is done about one entry of a deployment that ended. -/
def planEntry (e : Entry) (ended : EndState) (observed : List Observed) : Option Action :=
  if e.isReleased || e.isRefused then none
  else
    let clean := shouldClean e.disposition ended
    let unresolvedIntent := e.id.isNone
    -- A retained, receipted object is nothing to do.
    if !clean && !unresolvedIntent then none
    else if e.key.kind = .portLease then some (.releaseLease e.ref)
    else
      match foundFor e observed with
      | some o =>
        if o.labelledFor e.app e.deployment then
          if clean then some (.remove e.ref o unresolvedIntent) else some (.adopt e.ref o)
        else some (.refuse e.ref (notOurs e))
      | none => some (.markAbsent e.ref)

/-- What is said about an object labelled for a finished deployment that the ledger does not
know. -/
def planUnknown (l : Ledger) (ended : List (DeploymentId × EndState)) (o : Observed) :
    Option Action :=
  match o.harpoonDeployment with
  | none => none
  | some dep =>
    if ended.any fun p => p.1.asStr = dep then
      let known := l.entries.any fun e =>
        e.deployment.asStr = dep && e.key.kind = o.kind && (e.key.name = o.name || e.id = some o.id)
      if known then none else some (.reportOnly o unknownObject)
    else none

/-- Decide what to do, purely. Entries of deployments that are not in `ended` are left alone. -/
def plan (l : Ledger) (observed : List Observed) (ended : List (DeploymentId × EndState)) :
    List Action :=
  l.entries.filterMap (fun e => (endedAs ended e.deployment).bind fun state => planEntry e state observed)
    ++ observed.filterMap (planUnknown l ended)

end Harpoon.Deploy
