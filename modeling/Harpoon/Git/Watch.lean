import Harpoon.Git.Poll

/-!
# The watch loop and its webhook listener

A listener on the loopback (`serve` of `webhook.rs`) verifies pushes, hands each to a channel and answers that it
is accepted. The watch loop (`watch` of `git_cmds.rs`) polls, then takes in what the channel holds, runs the queue,
and goes on so until the interval is over; the channel lives in the memory of the process.
-/

namespace Harpoon.Git

open Deploy Control Interact

/-! ## The listener -/

inductive Provider where
  | gitHub
  | gitLab
  deriving DecidableEq, Repr

/-- A verified push. -/
structure PushEvent where
  provider : Provider
  repository : String
  refName : String
  revision : String
  delivery : String
  deriving DecidableEq, Repr

def PushEvent.source (ev : PushEvent) : String :=
  match ev.provider with
  | .gitHub => "github"
  | .gitLab => "gitlab"

def PushEvent.branch (ev : PushEvent) : Option String := Wire.stripPrefix "refs/heads/" ev.refName

/-- A push, and the registration whose route it came by. -/
structure Inbound where
  repo : String
  event : PushEvent
  deriving DecidableEq, Repr

inductive Reject where
  | tooLarge
  | badSignature
  | malformed (why : String)
  | notFound
  | methodNotAllowed
  | timeout
  deriving DecidableEq, Repr

def Reject.status : Reject → Nat
  | .tooLarge => 413
  | .badSignature => 401
  | .malformed _ => 400
  | .notFound => 404
  | .methodNotAllowed => 405
  | .timeout => 408

/-- The status and the text of an answer. -/
structure Response where
  status : Nat
  text : String
  deriving DecidableEq, Repr

def Response.accepted : Response := ⟨202, "accepted\n"⟩

/-- What a verified request is answered, and what is sent to the channel before that. -/
def serve : Except Reject (Option Inbound) → Response × Option Inbound
  | .ok (some inb) => (.accepted, some inb)
  -- A verified event that asks for nothing.
  | .ok none => (⟨202, "ignored\n"⟩, none)
  | .error r => (⟨r.status, "refused\n"⟩, none)

/-! ## Taking in a push -/

def notBranchLine (inb : Inbound) : String :=
  s!"webhook {inb.event.delivery}: {inb.event.refName} is not a branch; ignored"

def notWantedLine (repo : RepoRec) (inb : Inbound) (branch : String) : String :=
  s!"webhook {inb.event.delivery}: branch {branch} does not match the filters of {repo.name}; ignored"

def heldLine (repo : RepoRec) (inb : Inbound) : String :=
  s!"webhook {inb.event.delivery} ({inb.event.source}): queued {inb.event.revision} for {repo.name}"

def duplicateLine (inb : Inbound) : String := s!"webhook {inb.event.delivery}: duplicate delivery, nothing queued"

def refusedLine (inb : Inbound) (e : ControlError) : String :=
  s!"webhook {inb.event.delivery}: refused ({controlMessage e})"

/-- The event that a push asks for. -/
def pushEvent (repo : RepoRec) (inb : Inbound) (receivedMs : Nat) : Incoming :=
  ⟨repo.app, inb.event.delivery, inb.event.source, inb.event.revision, receivedMs⟩

/-- What is printed when the push was offered to the queue. -/
def queueLine (repo : RepoRec) (inb : Inbound) : Except ControlError Ingress → String
  | .ok .held => heldLine repo inb
  | .ok .notPaused | .ok .duplicate => duplicateLine inb
  | .error e => refusedLine inb e

/-- Offer a push to the queue. -/
def queuePush (repo : RepoRec) (ctl : ControlState) (inb : Inbound) : Process PollSig (List String) Fail Unit := do
  let asked (r : ControlRecord) : Program PollSig Written := Program.perform (S := PollSig) (.control r)
  let receivedMs ← Process.perform (S := PollSig) .now
  let queued ← Process.zoom (fun _ => ctl) (fun _ out => out)
    (Process.attempt (Process.via asked (queueEvent (pushEvent repo inb receivedMs))))
  modify (· ++ [queueLine repo inb queued])

/-- Queue a verified push. The journal is open for writing from the first step to the last. -/
def acceptWebhook (inb : Inbound) : Process PollSig (List String) Fail Unit := do
  let restored ← Process.ofExcept id (← Process.perform (S := PollSig) .openWriter)
  match restored.git.repos.find inb.repo with
  | none => return ()
  | some repo =>
    match inb.event.branch with
    | none => modify (· ++ [notBranchLine inb])
    | some branch =>
      if repo.wantsBranch branch then queuePush repo restored.control inb
      else modify (· ++ [notWantedLine repo inb branch])

/-! ## The loop -/

structure WatchLoop where
  /-- Events are queued and nothing is deployed. -/
  queueOnly : Bool
  iterations : Option Nat

/-- Where the loop stands. -/
inductive Phase where
  | polling
  /-- It takes in what the channel holds. -/
  | receiving
  | queue
  /-- It looks whether the interval is over. -/
  | resting
  /-- It told the listener to stop, and waits for it. -/
  | stopping
  | ended
  deriving DecidableEq, Repr

namespace WatchLoop

/-- After a push was taken in. A failure ends the watch. -/
def afterPush : Except Fail Unit → Phase
  | .ok _ => .receiving
  | .error _ => .ended

/-- After the channel was found empty. -/
def afterEmpty (loop : WatchLoop) : Phase := if loop.queueOnly then .resting else .queue

/-- After the queue was run: how much of it ran. A failure ends the watch. -/
def afterQueue : Except Fail Nat → Phase
  | .ok ran => if 0 < ran then .receiving else .resting
  | .error _ => .ended

/-- After a look at the clock, in the pass of this number. -/
def afterRest (loop : WatchLoop) (pass : Nat) (past : Bool) : Phase :=
  if !past then .receiving
  else if loop.iterations.any (· ≤ pass) then .stopping
  else .polling

end WatchLoop

end Harpoon.Git
