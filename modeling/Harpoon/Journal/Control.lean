import Harpoon.Control.State
import Harpoon.Journal.Frame

/-!
# Control records as lines

Optional and list fields share one text column: `-` stands for what is not there (`control.rs`).
-/

namespace Harpoon.Control

open Deploy Wire Journal

/-! ## Writing -/

/-- A list in one field. -/
def csv (v : List String) : String := if v = [] then "-" else joined ',' v

def outcomeStr : ExecOutcome → String
  | .deployed => "deployed"
  | .failed => "failed"

/-- The choice of a decision, and its revision. -/
def choiceFields : Choice → String × String
  | .dismiss => ("dismiss", "-")
  | .newest => ("newest", "-")
  | .revision r => ("revision", r)

def supersededEntry (p : String × SupersededWhy) : String := p.1 ++ (String.singleton '=' ++ p.2.asStr)

def pauseFields (p : PauseRec) : List String :=
  ["pause", "1", p.app.asStr, p.origin.asStr, p.kind.asStr, p.atMs.repr, hexText p.context]

def eventFields (e : EventRec) : List String :=
  ["event", "1", e.app.asStr, e.delivery, e.source, e.revision, e.receivedMs.repr]

def execFields (x : ExecRec) : List String :=
  ["exec", "1", x.app.asStr, x.delivery, outcomeStr x.outcome, (x.deployment.map Id.asStr).getD "-",
    hexText x.reason, csv x.superseded, x.atMs.repr]

def resumeFields (x : ResumeRec) : List String :=
  ["resume", "1", x.app.asStr, x.atMs.repr, (choiceFields x.choice).1, (choiceFields x.choice).2,
    x.selected.getD "-", csv x.dismissed, csv (x.superseded.map supersededEntry), csv (x.cleared.map Id.asStr)]

/-- The fields of a record's body. -/
def recordFields : ControlRecord → List String
  | .pause p => pauseFields p
  | .event e => eventFields e
  | .exec x => execFields x
  | .resume x => resumeFields x

def encode (r : ControlRecord) : String := frame (joined '\t' (recordFields r))

/-! ## Reading -/

def PauseKind.parse : String → Option PauseKind
  | "failed_cutover" => some .failedCutover
  | "interrupted_cutover" => some .interruptedCutover
  | "rollback" => some .rollback
  | _ => none

def SupersededWhy.parse : String → Option SupersededWhy
  | "newer_selected" => some .newerSelected
  | "not_chosen" => some .notChosen
  | _ => none

def parseOutcome : String → Option ExecOutcome
  | "deployed" => some .deployed
  | "failed" => some .failed
  | _ => none

/-- The entries of a list in one field. -/
def csvList (s : String) : List String := if s = "-" then [] else fields ',' s

def readApp (s : String) : Except String ApplicationId := readId .application "bad application id" s

def readDeployment (s : String) : Except String DeploymentId := readId .deployment "bad deployment id" s

def decodePause : List String → Except String PauseRec
  | [app, origin, kind, atMs, context] => do
    return {
      app := ← readApp app
      origin := ← readDeployment origin
      kind := ← need "unknown pause kind" (PauseKind.parse kind)
      atMs := ← number "bad pause time" atMs
      context := ← need "bad pause context" (unhexText context) }
  | _ => throw "a pause record has the wrong number of fields"

def decodeEvent : List String → Except String EventRec
  | [app, delivery, source, revision, receivedMs] => do
    checkDelivery delivery
    checkSource source
    checkRevision revision
    return {
      app := ← readApp app
      delivery := delivery
      source := source
      revision := revision
      receivedMs := ← number "bad received time" receivedMs }
  | _ => throw "an event record has the wrong number of fields"

def decodeChoice (choice revision : String) : Except String Choice :=
  if choice = "dismiss" ∧ revision = "-" then .ok .dismiss
  else if choice = "newest" ∧ revision = "-" then .ok .newest
  else if choice = "revision" then do
    checkRevision revision
    return .revision revision
  else .error "unknown resume choice"

def decodeSelected (s : String) : Except String (Option String) :=
  if s = "-" then .ok none
  else do
    checkDelivery s
    return some s

def decodeSuperseded (item : String) : Except String (String × SupersededWhy) := do
  let (d, w) ← need "bad superseded entry" (splitOnce '=' item)
  return (d, ← need "bad superseded reason" (SupersededWhy.parse w))

def decodeResume : List String → Except String ResumeRec
  | [app, atMs, choice, revision, selected, dismissed, superseded, cleared] => do
    let choice ← decodeChoice choice revision
    let selected ← decodeSelected selected
    let dismissed := csvList dismissed
    let superseded ← (csvList superseded).mapM decodeSuperseded
    let cleared ← (csvList cleared).mapM readDeployment
    (dismissed ++ superseded.map (·.1)).forM checkDelivery
    return {
      app := ← readApp app
      atMs := ← number "bad decision time" atMs
      choice := choice
      selected := selected
      dismissed := dismissed
      superseded := superseded
      cleared := cleared }
  | _ => throw "a resume record has the wrong number of fields"

def decodeExecuted (s : String) : Except String (Option DeploymentId) :=
  if s = "-" then .ok none else some <$> readDeployment s

def decodeExec : List String → Except String ExecRec
  | [app, delivery, outcome, deployment, reason, superseded, atMs] => do
    checkDelivery delivery
    let outcome ← need "unknown exec outcome" (parseOutcome outcome)
    let superseded := csvList superseded
    superseded.forM checkDelivery
    return {
      app := ← readApp app
      delivery := delivery
      outcome := outcome
      deployment := ← decodeExecuted deployment
      reason := ← need "bad exec reason" (unhexText reason)
      superseded := superseded
      atMs := ← number "bad exec time" atMs }
  | _ => throw "an exec record has the wrong number of fields"

/-- A record from the fields of its body. -/
def decode (f : List String) : Except String ControlRecord :=
  if f[1]? ≠ some "1" then .error "unknown control record version"
  else
    match f.headD "" with
    | "pause" => .pause <$> decodePause (f.drop 2)
    | "event" => .event <$> decodeEvent (f.drop 2)
    | "resume" => .resume <$> decodeResume (f.drop 2)
    | "exec" => .exec <$> decodeExec (f.drop 2)
    | other => .error s!"unknown control record {repr other}"

end Harpoon.Control
