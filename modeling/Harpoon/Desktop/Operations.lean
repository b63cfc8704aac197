import Harpoon.Cli.Args

/-!
# Operations of the desktop

What a person asks for in the desktop becomes a command line of the engine (`deploy_api.rs`). The engine reads it back
with its own parser.
-/

namespace Harpoon.Desktop

inductive DeployOp where
  | addRepo (name url : String) (app project environment branch : Option String) (filters : List String)
    (containerPort : UInt16) (dockerfile context target healthPath username knownHost webhook : Option String)
  | removeRepo (name : String) (expectRegisteredMs : UInt64) (confirmRemoval : Bool)
  | removeApp (name : String) (expectRegisteredMs : UInt64) (confirmApplicationRemoval : Bool)
  | updateRepo (name : String) (expectRegisteredMs : UInt64) (url branch dockerfile : Option String)
    (containerPort : Option UInt16) (healthPath : Option String) (confirmChange : Bool)
  | repoSecret (name kind value : String)
  | setConfig (scope name value : String) (build runtime : Bool)
  | setSecret (scope name value : String) (build runtime : Bool)
  | unset (scope name : String)
  | deploy (repo : String) (branch tag commit : Option String)
  | runQueue (repo : Option String)
  | poll (repo : Option String)
  | rollback (app release : String)
  | restore (deployment : String)
  | recover
  | resume (app mode : String) (revision : Option String)

/-- What the person confirmed for one operation. -/
structure Confirmation where
  liveChanges : Bool := false
  cutover : Bool := false
  deriving DecidableEq, Repr

/-- What the engine of this build may do. -/
structure Gate where
  liveDeployEnabled : Bool
  liveReplacementEnabled : Bool
  deriving DecidableEq, Repr

structure RuntimeInfo where
  dockerSocket : String
  mgmtSocket : String
  resourcesDir : String
  forwarderPid : UInt32
  forwarderCommand : String
  forwardAddress : Option String
  deriving DecidableEq, Repr

/-! ## The command line -/

/-- An optional field that is not empty. -/
def opt (flag : String) : Option String → List String
  | some v => if v = "" then [] else ["--" ++ flag, v]
  | none => []

/-- A flag without a value. -/
def flagIf (on : Bool) (flag : String) : List String := if on then ["--" ++ flag] else []

/-- The arguments and the standard input for an operation. The secret value, if any, is the input. -/
def plan : DeployOp → List String × Wire.Bytes
  | .addRepo name url app project environment branch filters containerPort dockerfile context target healthPath username
      knownHost webhook =>
    (["repo-add", "--name", name, "--url", url, "--container-port", toString containerPort.toNat] ++
      opt "app" app ++ opt "project" project ++ opt "environment" environment ++ opt "branch" branch ++
      filters.flatMap (fun f => ["--filter", f]) ++
      opt "dockerfile" dockerfile ++ opt "context" context ++ opt "target" target ++ opt "health-path" healthPath ++
      opt "username" username ++ opt "known-host" knownHost ++ opt "webhook" webhook ++
      -- The desktop only ever creates: an existing name is refused, never silently replaced.
      ["--new"], [])
  | .updateRepo name expectRegisteredMs url branch dockerfile containerPort healthPath confirmChange =>
    (["repo-update", "--name", name, "--expect-registered-ms", toString expectRegisteredMs.toNat] ++
      opt "url" url ++ opt "branch" branch ++ opt "dockerfile" dockerfile ++ opt "health-path" healthPath ++
      (match containerPort with
        | some p => ["--container-port", toString p.toNat]
        | none => []) ++ flagIf confirmChange "confirm-change", [])
  | .removeRepo name expectRegisteredMs confirmRemoval =>
    (["repo-remove", "--name", name, "--expect-registered-ms", toString expectRegisteredMs.toNat] ++
      flagIf confirmRemoval "confirm-removal", [])
  | .removeApp name expectRegisteredMs confirmApplicationRemoval =>
    (["app-remove", "--name", name, "--expect-registered-ms", toString expectRegisteredMs.toNat] ++
      flagIf confirmApplicationRemoval "confirm-application-removal", [])
  | .repoSecret name kind value => (["repo-secret", "--name", name, "--kind", kind], Wire.utf8 value)
  | .setConfig scope name value build runtime =>
    (["config-set", "--scope", scope, "--name", name, "--value", value] ++ flagIf build "build" ++ flagIf runtime "runtime", [])
  | .setSecret scope name value build runtime =>
    (["secret-set", "--scope", scope, "--name", name] ++ flagIf build "build" ++ flagIf runtime "runtime", Wire.utf8 value)
  | .unset scope name => (["config-unset", "--scope", scope, "--name", name], [])
  | .deploy repo branch tag commit =>
    (["git-deploy", "--repo", repo] ++ opt "branch" branch ++ opt "tag" tag ++ opt "commit" commit, [])
  | .runQueue repo => (["git-run"] ++ opt "repo" repo, [])
  -- It finds new commits and queues events, and never deploys.
  | .poll repo => (["watch", "--once", "--queue-only"] ++ opt "repo" repo, [])
  | .rollback app release => (["rollback", "--app", app, "--to", release, "--confirm-rollback"], [])
  | .restore deployment => (["restore", "--deployment", deployment, "--apply"], [])
  | .recover => (["recover"], [])
  | .resume app mode revision =>
    (["resume", "--app", app] ++
      (if mode = "dismiss" then ["--dismiss"]
      else if mode = "newest" then ["--newest"]
      else ["--revision", revision.getD ""]), [])

def needsRuntime : DeployOp → Bool
  | .deploy .. | .runQueue _ | .rollback .. | .restore _ => true
  | _ => false

def gateOpenFor (gate : Gate) : DeployOp → Bool
  | .deploy .. | .runQueue _ => gate.liveDeployEnabled
  | .rollback .. | .restore _ => gate.liveReplacementEnabled
  | _ => true

def DeployOp.isDeploy : DeployOp → Bool
  | .deploy .. => true
  | _ => false

/-- The runtime's coordinates, for a command that reaches Docker. -/
def runtimeArgs (r : RuntimeInfo) : List String :=
  ["--docker-socket", r.dockerSocket, "--mgmt-socket", r.mgmtSocket, "--resources-dir", r.resourcesDir,
    "--forwarder-pid", toString r.forwarderPid.toNat, "--forwarder-command", r.forwarderCommand] ++
    (match r.forwardAddress with
      | some a => ["--forward-address", a]
      | none => [])

/-- A refusal before the engine is reached, and what can be done about it. -/
structure Refusal where
  summary : String
  hint : String
  deriving DecidableEq, Repr

/-- The arguments that an operation on Docker has besides its own. -/
def liveArgs (op : DeployOp) (confirmation : Confirmation) (gate : Gate) : Except String RuntimeInfo →
    Except Refusal (List String)
  | .ok info =>
    .ok (runtimeArgs info ++
      (if confirmation.liveChanges then [s!"--{Cli.authFlag}={Cli.authPhrase}"] else []) ++
      flagIf confirmation.cutover "confirm-cutover")
  | .error e =>
    if gateOpenFor gate op then
      .error ⟨s!"Refused before contacting Docker: {e}", s!"Harpoon's runtime is not ready ({e}). Start Harpoon and wait until Docker shows as ready, then try again. Nothing was changed."⟩
    else .ok []

/-- The engine's arguments and standard input for an operation, or why it is refused. -/
def buildArgs (op : DeployOp) (confirmation : Confirmation) (gate : Gate) (runtime : Except String RuntimeInfo) :
    Except Refusal (List String × Wire.Bytes) :=
  if confirmation.cutover && !confirmation.liveChanges then
    .error ⟨"Refused: a cutover confirmation arrived without the confirmation to change Docker. Nothing was changed.",
      "Confirm the deployment in the dialog again. Nothing was changed."⟩
  else if confirmation.cutover && !op.isDeploy then
    .error ⟨"Refused: a cutover confirmation applies only to a deployment. Nothing was changed.",
      "Nothing was changed."⟩
  else if needsRuntime op then do
    let live ← liveArgs op confirmation gate runtime
    return ((plan op).1 ++ live, (plan op).2)
  else .ok (plan op)

/-- The arguments with which the engine runs on the desktop's own store. -/
def invocation (op : DeployOp) (confirmation : Confirmation) (gate : Gate) (runtime : Except String RuntimeInfo)
    (store : String) : Except Refusal (List String) := do
  let (args, _) ← buildArgs op confirmation gate runtime
  return args ++ ["--runtime-dir", store]

end Harpoon.Desktop
