import Harpoon.Config.State
import Harpoon.Journal.Release

/-!
# What one deployment is configured with

The resolved configuration of an application (`config.rs`), the values of the command line over it, and the
preflight that a deployment begins with (`config_cmds.rs`). The narrower scope wins, and a name that a
narrower scope unsets is not inherited.
-/

namespace Harpoon.Config

open Deploy

def maxEntries : Nat := 256

def maxConfigBytes : Nat := 64 * 1024

def maxSecretEntries : Nat := 64

/-! ## The limits of a resolved set -/

def checkEntry (e : Entry) : Except String Unit := do
  checkName e.name
  match e.value with
  | .config v => checkConfigValue e.name v
  | .secret _ => .ok ()

/-- What an entry counts for in the total size. -/
def Entry.configBytes (e : Entry) : Nat :=
  match e.value with
  | .config v => e.name.utf8ByteSize + v.utf8ByteSize + 1
  | .secret _ => 0

def Entry.isSecret (e : Entry) : Bool :=
  match e.value with
  | .config _ => false
  | .secret _ => true

def configBytes (entries : List Entry) : Nat := entries.foldl (fun bytes e => bytes + e.configBytes) 0

def validateEntries (entries : List Entry) : Except String Unit :=
  if entries.length > maxEntries then
    .error s!"{entries.length} variables resolved; at most {maxEntries} are accepted"
  else do
    entries.forM checkEntry
    if configBytes entries > maxConfigBytes then
      throw s!"the configuration values total {configBytes entries} bytes; at most {maxConfigBytes} are accepted"
    if entries.countP Entry.isSecret > maxSecretEntries then
      throw s!"{entries.countP Entry.isSecret} secrets resolved; at most {maxSecretEntries} are accepted"

/-! ## Resolution -/

/-- Entries in the order of their names. -/
def byName (entries : List Entry) : List Entry := entries.mergeSort fun a b => !decide (b.name < a.name)

namespace ConfigState

/-- The latest definition of each name at each scope. Its order does not matter: a scope has one definition
of a name. -/
def current (s : ConfigState) : Keyed.Table (fun d : Def => (d.scope, d.name)) :=
  s.defs.foldl (fun m d => m.insert d) .empty

/-- The scopes of an application, the widest first. -/
def order (project : Option String) (app : ApplicationId) (env : Option String) : List Scope :=
  let both (scope : Option String → Scope) : List Scope := scope none :: env.toList.map fun e => scope (some e)
  both Scope.everywhere ++ (project.toList.flatMap fun p => both (Scope.project p)) ++ both (Scope.application app)

/-- Take one definition over what wider scopes say. -/
def settle (scope : Scope) (out : Keyed.Table Entry.name) (d : Def) : Keyed.Table Entry.name :=
  match d.setting with
  | .unset => out.remove d.name
  | .set flags value => out.insert ⟨d.name, flags, some scope, value⟩

/-- Take the definitions of one scope. -/
def settleScope (s : ConfigState) (out : Keyed.Table Entry.name) (scope : Scope) : Keyed.Table Entry.name :=
  (s.current.rows.filter (·.scope = scope)).foldl (settle scope) out

def effective (s : ConfigState) (project : Option String) (app : ApplicationId) (env : Option String) :
    Keyed.Table Entry.name :=
  (order project app env).foldl s.settleScope .empty

/-- The effective configuration of an application. -/
def resolve (s : ConfigState) (project : Option String) (app : ApplicationId) (env : Option String) :
    Except String (List Entry) := do
  let entries := byName (s.effective project app env).rows
  validateEntries entries
  return entries

end ConfigState

/-- The values of the command line take the place of every other. -/
def withCommand (entries : List Entry) (pairs : List (String × String)) (flags : Flags) : List Entry :=
  byName (pairs.foldl (fun entries p => entries.filter (·.name ≠ p.1) ++ [⟨p.1, flags, none, .config p.2⟩]) entries)

def pickConfig (entries : List Entry) (keep : Flags → Bool) : List (String × String) :=
  (entries.filter fun e => keep e.flags).filterMap fun e =>
    match e.value with
    | .config v => some (e.name, v)
    | .secret _ => none

def pickSecret (entries : List Entry) (keep : Flags → Bool) : List (String × SecretRef) :=
  (entries.filter fun e => keep e.flags).filterMap fun e =>
    match e.value with
    | .secret r => some (e.name, r)
    | .config _ => none

def buildArgs (entries : List Entry) : List (String × String) := pickConfig entries (·.build)
def runtimeEnv (entries : List Entry) : List (String × String) := pickConfig entries (·.runtime)
def buildSecrets (entries : List Entry) : List (String × SecretRef) := pickSecret entries (·.build)
def runtimeSecrets (entries : List Entry) : List (String × SecretRef) := pickSecret entries (·.runtime)

/-! ## The preflight -/

/-- What the command line asks for. -/
structure Request where
  app : ApplicationId
  project : Option String
  environment : Option String
  /-- The values of `--env`, which were read before. -/
  cliEnv : List (String × String)
  /-- The `--build-arg` texts. -/
  buildArg : List String
  target : Option String
  dockerfile : Option String

structure Prepared where
  entries : List Entry
  project : Option String
  environment : Option String
  target : Option String
  buildArgs : List (String × String)
  buildSecrets : List (String × SecretRef)
  runtimeEnv : List (String × String)
  runtimeSecrets : List (String × SecretRef)
  buildIdentity : String

def checkTarget : Option String → Except String Unit
  | none => .ok ()
  | some t =>
    if !t.isEmpty ∧ t.utf8ByteSize ≤ 128 ∧ t.toList.all tokenChar then .ok ()
    else .error "--target must be a Dockerfile stage name (letters, digits, . _ -)"

/-- How the image was built, in one text. -/
def identity (dockerfile target : Option String) (args : List (String × String)) (secrets : List (String × SecretRef)) :
    String :=
  "dockerfile=" ++ dockerfile.getD "Dockerfile" ++ ";target=" ++ target.getD "-" ++ ";args=" ++
    "&".intercalate (args.map fun p => s!"{p.1}={p.2}") ++ ";secrets=" ++
    ",".intercalate (secrets.map fun p => s!"{p.1}:{p.2.asStr}")

/-- The entries of a deployment: the resolved ones, then `--env` and `--build-arg` in their places. -/
def resolved (r : Request) (s : ConfigState) (args : List (String × String)) : Except String (List Entry) := do
  let entries ← s.resolve r.project r.app r.environment
  let entries := withCommand entries r.cliEnv ⟨false, true⟩
  let entries := withCommand entries args ⟨true, false⟩
  validateEntries entries
  return entries

/-- The preflight of a deployment. The source then fetches every secret, and refuses the deployment if one
cannot be had; what it fetches goes to the backend only. -/
def prepare (r : Request) (s : ConfigState) : Except String Prepared := do
  let args ← (Envvars.parseAll r.buildArg).mapError fun e => e.replace "--env" "--build-arg"
  checkTarget r.target
  let entries ← resolved r s args
  return {
    entries := entries
    project := r.project
    environment := r.environment
    target := r.target
    buildArgs := Config.buildArgs entries
    buildSecrets := Config.buildSecrets entries
    runtimeEnv := Config.runtimeEnv entries
    runtimeSecrets := Config.runtimeSecrets entries
    buildIdentity := identity r.dockerfile r.target (Config.buildArgs entries) (Config.buildSecrets entries) }

namespace Prepared

/-- Does the deployment use anything beside `--env`? -/
def extended (p : Prepared) : Bool :=
  p.target.isSome || p.entries.any fun e => e.source.isSome || e.flags.build || e.isSecret

/-- The snapshot and the build identity that the release is pinned with. -/
def pinIdentity (p : Prepared) (dep : DeploymentId) : Option String × Option String :=
  if p.extended then (some dep.asStr, some p.buildIdentity) else (none, none)

def snapshot (p : Prepared) (dep : DeploymentId) (app : ApplicationId) (nowMs : Nat) : ConfigRecord :=
  .snapshot ⟨dep, app, p.project, p.environment, nowMs, p.entries⟩

/-- The environment that the Docker backend gives a container and pins (`backend.rs`). -/
def cfgEnvPairs (env : List String) : List (String × String) :=
  (env.map fun e => (Wire.splitOnce '=' e).getD (e, "")).mergeSort Envvars.pairLe

/-- The configuration that a build of this deployment is pinned with. What the command line and the backend
decide beside the variables is `c`'s. -/
def release (p : Prepared) (dep : DeploymentId) (c : ReleaseConfig) : ReleaseConfig :=
  { c with
    env := cfgEnvPairs (Envvars.dockerForm p.runtimeEnv)
    secrets := p.runtimeSecrets
    snapshot := (p.pinIdentity dep).1
    build := (p.pinIdentity dep).2 }

/-- The configuration that the Docker backend plans a release with (`plan_release` in `backend.rs`). The
variables are checked as a set before anything is planned. -/
def plan (p : Prepared) (dep : DeploymentId) (c : ReleaseConfig) : Except String ReleaseConfig :=
  match Envvars.validate (p.release dep c).env with
  | .error e => .error s!"environment: {e}; nothing was planned"
  | .ok _ => .ok (p.release dep c)

end Prepared

end Harpoon.Config

/-!
## The commands that write configuration records

`config-set`, `config-unset` and `secret-set`, and the snapshot that a deployment begins with
(`config_cmds.rs`).
-/

namespace Harpoon.Config

open Deploy

/-! ## Flags -/

def scopeFlag : Option String → Except String Scope
  | none =>
    .error "--scope is required: global, project:NAME or app:APPLICATION_ID, each optionally followed by @ENVIRONMENT"
  | some s => (Scope.parse s).mapError fun e => s!"--scope: {e}"

def nameFlag : Option String → Except String String
  | none => .error "--name is required"
  | some n => do
    checkName n
    return n

/-- With neither switch, a variable is for the running container. -/
def flagsOf (build runtime : Bool) : Flags := if !build && !runtime then ⟨false, true⟩ else ⟨build, runtime⟩

/-- What the three commands are given. -/
structure Target where
  scope : Option String
  name : Option String
  build : Bool
  runtime : Bool

/-! ## Definitions -/

def configSet (t : Target) (value : Option String) (nowMs : Nat) : Except String ConfigRecord := do
  let scope ← scopeFlag t.scope
  let name ← nameFlag t.name
  match value with
  | none =>
    .error "--value is required (a Config value is not secret; use `secret-set` for anything sensitive)"
  | some value => do
    checkConfigValue name value
    return .definition ⟨scope, name, .set (flagsOf t.build t.runtime) (.config value), nowMs⟩

def configUnset (t : Target) (nowMs : Nat) : Except String ConfigRecord := do
  let scope ← scopeFlag t.scope
  let name ← nameFlag t.name
  return .definition ⟨scope, name, .unset, nowMs⟩

/-! ## Secrets -/

/-- Why the secret store did not save a version. -/
inductive SecretError where
  | notFound
  | denied (m : String)
  | unavailable (m : String)
  | duplicate
  | other (m : String)
  deriving DecidableEq, Repr

def SecretError.toStr : SecretError → String
  | .notFound => "not found in the secret store"
  | .denied m => s!"the secret store refused access ({m})"
  | .unavailable m => s!"the secret store is unavailable ({m})"
  | .duplicate => "that secret version already exists (versions are immutable)"
  | .other m => s!"the secret store failed ({m})"

/-- Save under the first version, from one on, that the store does not have. At most eight are passed over. -/
def putFrom (put : SecretRef → Except SecretError Unit) (name id : String) (first : UInt32) :
    Nat → UInt32 → Except String SecretRef
  | tries, version =>
    match put ⟨id, version⟩, tries with
    | .ok _, _ => .ok ⟨id, version⟩
    | .error .duplicate, tries + 1 =>
      if version < first + 8 then putFrom put name id first tries (version + 1)
      else .error s!"the secret {name} was not saved: {SecretError.duplicate.toStr}. Nothing was recorded."
    | .error e, _ => .error s!"the secret {name} was not saved: {e.toStr}. Nothing was recorded."

/-- The saved version and the definition that refers to it. The value is read from the standard input before,
and goes to the secret store only. -/
def secretSet (t : Target) (put : SecretRef → Except SecretError Unit) (s : ConfigState) (savedMs definedMs : Nat) :
    Except String (List ConfigRecord) := do
  let scope ← scopeFlag t.scope
  let name ← nameFlag t.name
  let id := secretId scope name
  let r ← putFrom put name id (s.nextVersion id) 8 (s.nextVersion id)
  return [.secretSaved ⟨id, r.version, savedMs⟩,
    .definition ⟨scope, name, .set (flagsOf t.build t.runtime) (.secret r), definedMs⟩]

/-! ## What is written -/

/-- One command, with the times it reads. -/
inductive Command where
  | set (t : Target) (value : Option String) (nowMs : Nat)
  | unset (t : Target) (nowMs : Nat)
  | secret (t : Target) (put : SecretRef → Except SecretError Unit) (savedMs definedMs : Nat)
  /-- The preflight of a deployment. -/
  | deploy (r : Request) (dep : DeploymentId) (nowMs : Nat)

/-- The records that a command writes to a store with this state. -/
def Command.written (s : ConfigState) : Command → Except String (List ConfigRecord)
  | .set t value nowMs => do
    let r ← configSet t value nowMs
    return [r]
  | .unset t nowMs => do
    let r ← configUnset t nowMs
    return [r]
  | .secret t put savedMs definedMs => secretSet t put s savedMs definedMs
  | .deploy r dep nowMs => do
    let p ← prepare r s
    return [p.snapshot dep r.app nowMs]

end Harpoon.Config
