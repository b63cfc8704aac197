import Harpoon.Git.Commands
import Harpoon.Git.State
import Harpoon.Wire.Fields

/-!
# Polling

One pass over the branches of a registered repository (`poll_repo` of `git_cmds.rs`). The remote is listed
without holding the journal; what it says is then compared with what is recorded. A commit that moved a
branch is queued as an event, and recorded as seen after that.
-/

namespace Harpoon.Git

open Deploy Control Interact

/-- A line of the remote's listing. -/
structure RemoteRef where
  name : String
  commit : String
  deriving DecidableEq, Repr

/-- The branches in a listing, each with its commit. -/
def branchHeads (refs : List RemoteRef) : List (String × String) :=
  refs.filterMap fun r => (Wire.stripPrefix "refs/heads/" r.name).map fun b => (b, r.commit)

/-- What is read of the journal when it is opened. -/
structure Restored where
  git : GitState
  control : ControlState

/-- What a poll asks of its surroundings. -/
inductive PollOp where
  /-- Read the state, find the repository's credential, and make a workspace. -/
  | prepare
  | lsRemote (url : String)
  /-- Open the journal for writing and read the state. No other process writes until it is closed. -/
  | openWriter
  | now
  | control (r : ControlRecord)
  | git (r : GitRecord)
  deriving DecidableEq

def PollOp.Answer : PollOp → Type
  | .prepare => Except Fail Unit
  | .lsRemote _ => Except String (List RemoteRef)
  | .openWriter => Except Fail Restored
  | .now => Nat
  | .control _ | .git _ => Written

abbrev PollSig : Signature := ⟨PollOp, PollOp.Answer⟩

/-- What a poll keeps while it holds the journal. -/
structure Poller where
  ctl : ControlState
  /-- The lines it printed. -/
  out : List String

abbrev Polling (α : Type) := Process PollSig Poller Fail α

namespace Polling

def say (line : String) : Polling Unit := modify fun p => { p with out := p.out ++ [line] }

/-- Queue an event. -/
def queue (ev : Incoming) : Polling Ingress := do
  let asked (r : ControlRecord) : Program PollSig Written := Program.perform (S := PollSig) (.control r)
  let queued ← Process.attempt (Process.zoom Poller.ctl (fun ctl p => { p with ctl := ctl })
    (Process.via asked (queueEvent ev)))
  Process.ofExcept (fun e => .refused (controlMessage e)) queued

/-- Record an observation. -/
def observe (x : SeenRec) : Polling Unit := do
  match ← Process.perform (S := PollSig) (.git (.seen x)) with
  | .acknowledged => return ()
  | .failed e _ => throw (.journal s!"cannot record the observation: {Journal.FileJournal.debug e}")

end Polling

/-- How an event that a poll queues says where it comes from. -/
def pollSource (firstPass : Bool) : String := if firstPass then "poll-late" else "poll"

/-- The event of a commit that a poll found. -/
def pollEvent (repo : RepoRec) (git : GitState) (firstPass : Bool) (sha : String) (receivedMs : Nat) : Incoming :=
  ⟨repo.app, pollDelivery repo.name (git.incarnation repo.app) sha, pollSource firstPass, sha, receivedMs⟩

def refName (branch : String) : String := s!"refs/heads/{branch}"

/-- The commit last seen on the branch. What was seen under an earlier registration does not count. -/
def previousCommit (repo : RepoRec) (git : GitState) (branch : String) : Option String :=
  ((git.seen.find (repo.name, refName branch)).filter fun s => repo.atMs ≤ s.atMs).map (·.commit)

def queuedLine (repo : RepoRec) (firstPass : Bool) (branch old sha delivery : String) : String :=
  if firstPass then
    s!"LATE: {repo.name} branch {branch} moved {old} -> {sha} while Harpoon was not running; queued as {delivery}"
  else s!"{repo.name} branch {branch} moved {old} -> {sha}; queued as {delivery}"

/-- Queue the event of a branch that moved, or say what the branch starts from. How many events were queued. -/
def queueHead (repo : RepoRec) (firstPass : Bool) (git : GitState) (branch sha : String) : Polling Nat :=
  match previousCommit repo git branch with
  | some old => do
    let ev := pollEvent repo git firstPass sha (← Process.perform (S := PollSig) .now)
    match ← Polling.queue ev with
    | .held =>
      Polling.say (queuedLine repo firstPass branch old sha ev.deliveryId)
      return 1
    | .notPaused | .duplicate => return 0
  | none => do
    Polling.say s!"{repo.name} branch {branch} first seen at {sha} (baseline; nothing is deployed for history that already existed)"
    return 0

/-- Take in the head of each branch. How many events were queued. -/
def pollHeads (repo : RepoRec) (firstPass : Bool) (git : GitState) : List (String × String) → Polling Nat
  | [] => return 0
  | (branch, sha) :: heads => do
    if repo.wantsBranch branch ∧ previousCommit repo git branch ≠ some sha then
      let queued ← queueHead repo firstPass git branch sha
      -- After the event, so that a poll that stops in between queues the same delivery again.
      Polling.observe ⟨repo.name, refName branch, sha, ← Process.perform (S := PollSig) .now⟩
      return queued + (← pollHeads repo firstPass git heads)
    else pollHeads repo firstPass git heads

/-- One pass over a repository, from the registration it started with. How many events were queued. -/
def pollRepo (repo : RepoRec) (firstPass : Bool) : Process PollSig (List String) Fail Nat := do
  let prepared ← Process.perform (S := PollSig) .prepare
  Process.ofExcept id prepared
  let listed ← Process.perform (S := PollSig) (.lsRemote repo.url)
  let refs ← Process.ofExcept (fun e => .failed s!"polling {repo.name}: {e}") listed
  let restored ← Process.ofExcept id (← Process.perform (S := PollSig) .openWriter)
  -- What was read belongs to the registration it was read from.
  match restored.git.repos.find repo.name with
  | some now =>
    if now = repo then
      Process.zoom (fun out => ⟨restored.control, out⟩) (fun p _ => p.out)
        (pollHeads repo firstPass restored.git (branchHeads refs))
    else
      modify (· ++ [s!"{repo.name}: its registration changed while it was being polled; this result was discarded and the next pass starts from the new one"])
      return 0
  | none =>
    modify (· ++ [s!"{repo.name}: its registration was removed while it was being polled; this result was discarded"])
    return 0

end Harpoon.Git
