import Harpoon.Config.Prepare
import Harpoon.Deploy.Ledger
import Harpoon.Git.Poll
import Harpoon.Git.Url

/-!
# Registering repositories

`repo-add`, `repo-update`, `repo-remove`, `app-remove` and `repo-secret`, and the credential that a
repository is read with (`git_cmds.rs`). A command reads the journal without holding it, and again once it
holds it. What it has read before is an argument here.
-/

namespace Harpoon.Git

open Deploy Control Config
open Envvars (isControl debugStr)

/-! ## Failures -/

namespace Fail

def usage (message : String) : Fail := ⟨2, message⟩

end Fail

def refuseIf (condition : Bool) (why : Fail) : Except Fail Unit := if condition then .error why else .ok ()

def parseIdText : Id.ParseIdError → String
  | .wrongPrefix expected => s!"identifier must start with `{expected}_`"
  | .badLength => "identifier body must be 26 characters"
  | .badCharacter c => s!"invalid identifier character {debugChar c}"
  | .overflow => "identifier value exceeds 128 bits"

/-! ## The rules for a registration -/

def maxName : Nat := 64

def maxFilters : Nat := 16

def token (what v : String) : Except String Unit :=
  if v.isEmpty ∨ v.utf8ByteSize > maxName then .error s!"{what} must be 1..={maxName} bytes"
  else
    match v.toList.find? fun c => !Config.tokenChar c with
    | some c => .error s!"{what} contains {debugChar c}; only letters, digits and . _ - are accepted"
    | none => .ok ()

def checkRefName (v : String) : Except String Unit :=
  if v.isEmpty || 200 < v.utf8ByteSize || startsWith '-' v || containsText ".." v || containsText "@\x7b" v ||
      endsWith '/' v || ".lock".toList.isSuffixOf v.toList ||
      v.toList.any fun c => isControl c || isWhitespace c || ['~', '^', ':', '?', '*', '[', '\\'].contains c then
    .error s!"{debugStr v} is not a usable Git ref name"
  else .ok ()

def checkFilter (f : String) : Except String Unit :=
  if f.isEmpty || 100 < f.utf8ByteSize || f.toList.any fun c => isControl c || isWhitespace c then
    .error s!"{debugStr f} is not a usable branch filter"
  else .ok ()

def checkCred : UrlKind → CredKind → Except String Unit
  | .ssh, .token | .https, .sshKey | .httpLoopback, .sshKey =>
    .error "the credential kind does not match the URL (token for https, sshkey for ssh)"
  | _, _ => .ok ()

def RepoRec.validate (r : RepoRec) : Except String UrlKind := do
  token "a repository name" r.name
  let kind ← validateUrl r.url
  checkRefName r.branch
  if maxFilters < r.filters.length then throw s!"at most {maxFilters} branch filters"
  r.filters.forM checkFilter
  checkCred kind r.cred
  if kind = .ssh ∧ r.knownHost = none then
    throw "an SSH repository needs its pinned host key (--known-host): there is no trust on first use"
  if r.containerPort = 0 then throw "a container port is required"
  ([r.username, r.project, r.environment].filterMap id).forM (token "a name")
  return kind

/-- The id of a repository's secrets. It depends on the name alone, so it outlives the registration. -/
def secretIdFor (name what : String) : String := s!"git/{name}/{what}"

def RepoRec.secretId (r : RepoRec) (what : String) : String := secretIdFor r.name what

/-- The latest removal of a registration under the name. -/
def GitState.retiredName (s : GitState) (name : String) : Option RemovedRec :=
  s.retired.reverse.find? fun x => x.name = name

/-! ## What a command reads -/

/-- The flags of a command. -/
structure Parsed where
  value : String → Option String
  values : String → List String
  switch : String → Bool

def Parsed.need (p : Parsed) (flag : String) : Except Fail String :=
  match p.value flag with
  | some v => .ok v
  | none => .error (.usage s!"--{flag} is required")

/-- The state of the journal, as a command on registrations reads it. -/
structure Registry extends Restored where
  config : ConfigState
  deployments : List Deployment
  ledger : Ledger

def repoNamed (state : Registry) (name : String) : Except Fail RepoRec :=
  match state.git.repos.find name with
  | some repo => .ok repo
  | none =>
    match state.git.retiredName name with
    | some gone =>
      .error (.refused s!"repository {debugStr name} was removed: its source is disconnected, and application {gone.app} keeps its history. Register the name again with `repo-add` to connect a source")
    | none => .error (.refused s!"repository {debugStr name} is not registered; use `repo-add`")

def changedMeanwhile (name : String) : Fail :=
  .refused s!"repository {debugStr name} was changed after you opened it (another edit or a re-registration). Nothing was changed; reload and try again"

def alreadyRegistered (name url : String) : Fail :=
  .refused s!"repository {debugStr name} is already registered ({url}). Nothing was changed; choose another name"

/-- Does an event of the application wait? -/
def Registry.eventsWait (state : Registry) (app : ApplicationId) : Bool :=
  !(state.control.held app).isEmpty || (state.control.pendingSelection app).isSome

/-! ## The destination of a saved credential -/

/-- Is a credential on record for the name? Either its registration used one, or a version was ever saved. -/
def credentialOnRecord (state : Registry) (name : String) (cred : CredKind) : Bool :=
  cred ≠ .none || (state.config.versions.find (secretIdFor name "credential")).isSome

def credentialLabel : CredKind → String
  | .token => "access token"
  | .sshKey => "SSH key"
  | .none => "saved credential"

/-- The URL that the name's credential was issued for: that of its registration, or of the one that was
removed last. -/
def credentialAnchor (state : Registry) (name : String) : Option (String × CredKind) :=
  match state.git.repos.find name with
  | some live => some (live.url, live.cred)
  | none => (state.git.retiredName name).map fun gone => (gone.url, gone.cred)

/-- A saved credential may only follow a URL of the same destination. One that cannot be told is the same as
no other. -/
def keepCredentialDestination (name label oldUrl newUrl : String) : Except Fail Unit :=
  match destination oldUrl, destination newUrl with
  | some was, some now =>
    if was = now then .ok ()
    else
      .error (.refused s!"the {label} of repository {debugStr name} belongs to {was.toStr}, and the new address goes to {now.toStr}. A saved credential keeps its host, port and protocol; add a new repository with another name for the other destination. Nothing was changed")
  | _, _ =>
    .error (.refused s!"the {label} of repository {debugStr name} can only follow an address Harpoon can read unambiguously as [user@]host[:port] over https, http or ssh; the old or the new address is not one. Add a new repository with another name instead. Nothing was changed")

/-- Nothing is protected unless the URL changes and a credential is on record. -/
def guardCredentialDestination (state : Registry) (name newUrl : String) : Except Fail Unit :=
  match credentialAnchor state name with
  | some (oldUrl, cred) =>
    if oldUrl ≠ newUrl ∧ credentialOnRecord state name cred then
      keepCredentialDestination name (credentialLabel cred) oldUrl newUrl
    else .ok ()
  | none => .ok ()

/-! ## `repo-add` -/

/-- A registration belongs to its application for good. -/
def guardApplicationIdentity (state : Registry) (name : String) (requested : Option ApplicationId) : Except Fail Unit :=
  match state.git.repos.find name, requested with
  | some old, some app =>
    if app ≠ old.app then
      .error (.refused s!"repository {debugStr name} belongs to application {old.app}, and --app {app} would move it to a different application. An application's identity is fixed. Omit --app to keep it, or add a new repository with another name for the other application. Nothing was changed")
    else .ok ()
  | _, _ => .ok ()

/-- Only the name under which an application was registered may claim it again, and explicitly. -/
def guardApplicationClaim (state : Registry) (name : String) (requested : Option ApplicationId) (confirmed : Bool) :
    Except Fail Unit :=
  match requested with
  | none => .ok ()
  | some app =>
    match state.git.retiredOwner app with
    | none => .ok ()
    | some owner =>
      if owner ≠ name then
        .error (.refused s!"application {app} belongs to the removed repository {debugStr owner}, and only that name can claim it again; repository {debugStr name} cannot. Omit --app to create a fresh application. Nothing was changed")
      else if (state.git.repos.find name).isSome then .ok ()
      else if !confirmed then
        .error (.refused s!"application {app} was disconnected from repository {debugStr name} when its registration was removed. Registering the name for it again keeps its history and serving release and connects a source to them; confirm with --confirm-reclaim, or omit --app for a fresh application. Nothing was changed")
      else if state.eventsWait app then
        .error (.refused s!"application {app} still has held Git events from before its registration was removed. Resume or dismiss them first: they name revisions of the old source. Nothing was changed")
      else .ok ()

/-- What `repo-add` is asked for. -/
structure Addition where
  url : String
  kind : UrlKind
  username : Option String
  cred : CredKind
  webhook : Option WebhookKind
  name : String
  branch : String
  app : Option ApplicationId
  createOnly : Bool
  confirmReclaim : Bool

def webhookFlag : Option String → Except Fail (Option WebhookKind)
  | none => .ok none
  | some o =>
    if o = "github" then .ok (some .gitHub)
    else if o = "gitlab" then .ok (some .gitLab)
    else .error (.usage s!"--webhook is github or gitlab, not {debugStr o}")

def appFlag : Option String → Except Fail (Option ApplicationId)
  | none => .ok none
  | some a =>
    match Id.parse .application a with
    | .ok app => .ok (some app)
    | .error e => .error (.usage s!"--app is not an application id: {parseIdText e}")

/-- The credential that a URL of this kind needs. -/
def credFor (kind : UrlKind) (username : Option String) : CredKind :=
  match kind, username with
  | .ssh, _ => .sshKey
  | _, some _ => .token
  | _, none => .none

def addition (p : Parsed) : Except Fail Addition := do
  let url ← p.need "url"
  let kind ← (validateUrl url).mapError .usage
  let username := p.value "username"
  let webhook ← webhookFlag (p.value "webhook")
  let name ← p.need "name"
  let branch := (p.value "branch").getD "main"
  let app ← appFlag (p.value "app")
  return ⟨url, kind, username, credFor kind username, webhook, name, branch, app, p.switch "new",
    p.switch "confirm-reclaim"⟩

def guardNew (a : Addition) (state : Registry) : Except Fail Unit :=
  match state.git.repos.find a.name with
  | some r => if a.createOnly then .error (alreadyRegistered a.name r.url) else .ok ()
  | none => .ok ()

/-- The checks that are made before the journal is held, and again under its lock. -/
def guardAddition (a : Addition) (state : Registry) : Except Fail Unit := do
  guardNew a state
  guardApplicationIdentity state a.name a.app
  guardApplicationClaim state a.name a.app a.confirmReclaim
  guardCredentialDestination state a.name a.url

/-- Before there is a journal, nothing is checked. -/
def guardEarly (a : Addition) : Option Registry → Except Fail Unit
  | some seen => guardAddition a seen
  | none => .ok ()

/-- A repository on this machine is checked before it is recorded: `verified` is what came of it. -/
def verifySource (kind : UrlKind) (branch : String) (verified : Except String Unit) : Except Fail Unit :=
  if kind = .file then do
    (checkRefName branch).mapError .refused
    verified.mapError .refused
  else .ok ()

def portFlag (v : String) : Except Fail UInt16 :=
  match (Wire.parseUnsigned 10 65535 v).map UInt16.ofNat with
  | some n => if n ≠ 0 then .ok n else .error (.usage "--container-port is not a port number")
  | none => .error (.usage "--container-port is not a port number")

/-- The application of the registration: the one that was asked for, the one it has, or a new one. -/
def applicationOf (a : Addition) (state : Registry) (fresh : Except String ApplicationId) : Except Fail ApplicationId :=
  match a.app with
  | some app => .ok app
  | none =>
    match state.git.repos.find a.name with
    | some r => .ok r.app
    | none => fresh.mapError fun e => .failed s!"cannot generate an id: {e}"

/-- The registration that `repo-add` records. `early` is what it read before it held the journal, if there
was one, and `state` what it read under the lock. -/
def repoAdd (p : Parsed) (early : Option Registry) (verified : Except String Unit) (state : Registry)
    (fresh : Except String ApplicationId) (nowMs : Nat) : Except Fail RepoRec := do
  let a ← addition p
  guardEarly a early
  verifySource a.kind a.branch verified
  guardAddition a state
  let app ← applicationOf a state fresh
  let port ← p.need "container-port" >>= portFlag
  let x : RepoRec :=
    { name := a.name
      url := a.url
      username := a.username
      cred := a.cred
      knownHost := p.value "known-host"
      webhook := a.webhook
      app := app
      project := p.value "project"
      environment := p.value "environment"
      branch := a.branch
      filters := p.values "filter"
      containerPort := port
      dockerfile := p.value "dockerfile"
      context := p.value "context"
      target := p.value "target"
      healthPath := p.value "health-path"
      atMs := nowMs }
  let _ ← x.validate.mapError .usage
  let _ ← (state.git.apply (.repo x)).mapError .refused
  return x

/-! ## `repo-update` -/

/-- A name that stays inside the directory by its spelling alone. -/
def plainRelative (name : String) : Bool :=
  let parts := Wire.fields '/' name
  !name.isEmpty && !containsChar '\x00' name && !startsWith '/' name &&
    -- A dot is a component of its own at the beginning only.
    parts.headD "" ≠ "." && parts.all (· ≠ "..")

def healthPathProblem (path : String) : Except String Unit :=
  if !startsWith '/' path then .error "--health-path must start with '/'"
  else
    match path.toList.find? fun c => isControl c || c = ' ' with
    | some c =>
      .error s!"--health-path contains a control or space character (U+{codePoint c}); use a plain absolute path such as /health"
    | none => .ok ()

/-- A flag that is not empty. -/
def Parsed.filled (p : Parsed) (flag : String) : Except Fail (Option String) :=
  match p.value flag with
  | some v => if v.isEmpty then .error (.usage s!"--{flag} cannot be empty") else .ok (some v)
  | none => .ok none

def editUrl (p : Parsed) (r : RepoRec) : RepoRec := { r with url := (p.value "url").getD r.url }

def editBranch (p : Parsed) (r : RepoRec) : RepoRec := { r with branch := (p.value "branch").getD r.branch }

def editDockerfile (p : Parsed) (r : RepoRec) : Except Fail RepoRec := do
  match ← p.filled "dockerfile" with
  | none => return r
  | some d =>
    refuseIf (!plainRelative d || d.toList.any isControl)
      (.refused s!"the Dockerfile path {debugStr d} must be a relative path inside the build context, such as Dockerfile or docker/Dockerfile.prod (no leading '/', no '..')")
    return { r with dockerfile := some d }

def editHealthPath (p : Parsed) (r : RepoRec) : Except Fail RepoRec := do
  match ← p.filled "health-path" with
  | none => return r
  | some h =>
    (healthPathProblem h).mapError fun m => .refused (m.replace "--health-path" "the health check path")
    return { r with healthPath := some h }

def editPort (p : Parsed) (r : RepoRec) : Except Fail RepoRec :=
  match p.value "container-port" with
  | none => .ok r
  | some v => do
    let port ← portFlag v
    return { r with containerPort := port }

/-- The registration with the values that were given. -/
def edited (p : Parsed) (current : RepoRec) : Except Fail RepoRec := do
  let r := editBranch p (editUrl p current)
  let r ← editDockerfile p r
  let r ← editHealthPath p r
  let r ← editPort p r
  refuseIf (r = current)
    (.refused s!"nothing to change: repository {debugStr current.name} already has these values")
  return r

/-- What is asked under the lock of an edit of `current` into `r`. -/
def guardUpdate (p : Parsed) (current r : RepoRec) (state : Registry) : Except Fail Unit := do
  refuseIf (state.git.repos.find current.name ≠ some current) (changedMeanwhile current.name)
  refuseIf ((state.deployments.any fun d => d.applicationId = r.app) && !p.switch "confirm-change")
    (.refused s!"application {r.app} has deployment history. Confirm the change (--confirm-change): earlier deployments keep the source they were built from, and the next deployment uses the new values")
  refuseIf (r.url ≠ current.url && state.eventsWait r.app)
    (.refused s!"application {r.app} has held Git events from the current source. Resume or dismiss them first: they name revisions of the old source")

/-- A local source is checked again if the edit names another one. -/
def verifyEdit (current r : RepoRec) (kind : UrlKind) (verified : Except String Unit) : Except Fail Unit :=
  if r.url ≠ current.url ∨ r.branch ≠ current.branch then verifySource kind r.branch verified else .ok ()

/-- `--expect-registered-ms`. -/
def expectFlag (p : Parsed) (why : String) : Except Fail Nat := do
  let v ← p.need "expect-registered-ms"
  match Wire.parseUnsigned 10 0xFFFFFFFFFFFFFFFF v with
  | some n => return n
  | none => throw (.usage why)

/-- The registration that `repo-update` records. `seen` is what it read before it held the journal: the
destination is checked against that. -/
def repoUpdate (p : Parsed) (seen : Registry) (verified : Except String Unit) (state : Registry) (nowMs : Nat) :
    Except Fail RepoRec := do
  let name ← p.need "name"
  let expect ← expectFlag p "--expect-registered-ms is the registration time you were shown"
  let current ← repoNamed seen name
  refuseIf (current.atMs ≠ expect) (changedMeanwhile name)
  let r ← edited p current
  let kind ← r.validate.mapError .refused
  guardCredentialDestination seen name r.url
  verifyEdit current r kind verified
  guardUpdate p current r state
  let r := { r with atMs := max nowMs (current.atMs + 1) }
  let _ ← (state.git.apply (.repo r)).mapError .refused
  return r

/-! ## `repo-remove` and `app-remove` -/

/-- An application that owns nothing. -/
def unusedApplication (state : Registry) (app : ApplicationId) (name : String) : Except Fail Unit := do
  let refuse (what : String) : Fail :=
    .refused s!"application {app} (repository {debugStr name}) cannot be removed: it {what}. Only an application that was never deployed and owns no Docker resources can be removed; use `repo-remove` to disconnect its source instead. Nothing was changed"
  let deployments := (state.deployments.filter fun d => d.applicationId = app).length
  refuseIf (0 < deployments) (refuse s!"has {deployments} deployment record(s)")
  let entries := (state.ledger.entries.filter fun e => e.app = app).length
  refuseIf (0 < entries) (refuse s!"has {entries} Docker ledger entr(ies)")
  refuseIf (isPaused app state.deployments state.control) (refuse "has an active pause")

/-- What `app-remove` asks besides. -/
def removableApplication (state : Registry) (repo : RepoRec) (application : Bool) : Except Fail Unit :=
  if application then unusedApplication state repo.app repo.name else .ok ()

/-- The registration, if it may be removed now. -/
def removable (state : Registry) (name : String) (expect : Nat) (application : Bool) : Except Fail RepoRec :=
  match state.git.repos.find name with
  | none =>
    match state.git.retiredName name with
    | some gone =>
      .error (.refused s!"repository {debugStr name} was already removed (application {gone.app} keeps its history); there is nothing to remove. Nothing was changed")
    | none => .error (.refused s!"repository {debugStr name} is not registered. Nothing was changed")
  | some repo => do
    refuseIf (repo.atMs ≠ expect) (changedMeanwhile name)
    refuseIf (state.eventsWait repo.app)
      (.refused s!"application {repo.app} still has held or selected Git events from repository {debugStr name}. Resolve them first (Resume: dismiss, or run the selected one): removal never dismisses or replays them. Nothing was changed")
    removableApplication state repo application
    return repo

def confirmRemoval (p : Parsed) (name : String) (application : Bool) : Except Fail Unit :=
  if application && !p.switch "confirm-application-removal" then
    .error (.refused s!"removing the application of repository {debugStr name} takes it off the active list; confirm with --confirm-application-removal. Journal history and stored credentials are not purged, and no container or image is deleted. Nothing was changed")
  else if !application && !p.switch "confirm-removal" then
    .error (.refused s!"removing repository {debugStr name} disconnects it from its application; confirm with --confirm-removal. The application, its history, its serving release, its Docker resources and its stored credentials are not removed. Nothing was changed")
  else .ok ()

/-- The removal that is recorded. `capability` is whether the build and the runtime directory allow removals
at all, and `backup` what came of the copy that is made before the first one. -/
def remove (p : Parsed) (capability : Except Fail Unit) (seen state : Registry) (backup : Except Fail Unit) (nowMs : Nat)
    (application : Bool) : Except Fail RemovedRec := do
  capability
  let name ← p.need "name"
  let expect ← expectFlag p "--expect-registered-ms is the registration time you were shown (`repo-list`)"
  confirmRemoval p name application
  let repo ← removable seen name expect application
  let now ← removable state name expect application
  refuseIf (now ≠ repo) (changedMeanwhile name)
  backup
  let x : RemovedRec := ⟨repo.name, repo.app, repo.atMs, repo.url, repo.cred, nowMs⟩
  let _ ← (state.git.apply (.removed x)).mapError .refused
  return x

/-! ## `repo-secret` -/

def secretKind : Option String → Except Fail String
  | some what =>
    if what = "credential" ∨ what = "webhook" then .ok what else .error (.usage "--kind is credential or webhook")
  | none => .error (.usage "--kind is credential or webhook")

def secretAllowed (repo : RepoRec) (what : String) : Except Fail Unit :=
  if what = "credential" ∧ repo.cred = .none then
    .error (.refused "this repository is registered without a credential")
  else if what = "webhook" ∧ repo.webhook = none then
    .error (.refused "this repository is registered without a webhook provider (--webhook)")
  else .ok ()

/-- Save under the first version, from one on, that the secret store does not have. -/
def putSecret (put : SecretRef → Except SecretError Unit) (id : String) (first : UInt32) :
    Nat → UInt32 → Except Fail SecretRef
  | tries, version =>
    match put ⟨id, version⟩, tries with
    | .ok _, _ => .ok ⟨id, version⟩
    | .error .duplicate, tries + 1 =>
      if version < first + 8 then putSecret put id first tries (version + 1)
      else .error (.refused s!"the secret was not saved: {SecretError.duplicate.toStr}. Nothing was recorded.")
    | .error e, _ => .error (.refused s!"the secret was not saved: {e.toStr}. Nothing was recorded.")

/-- The repository that a secret is saved for, and the version it is saved under. The version is recorded
after that. -/
def repoSecret (p : Parsed) (state : Registry) (put : SecretRef → Except SecretError Unit) :
    Except Fail (RepoRec × SecretRef) := do
  let name ← p.need "name"
  let what ← secretKind (p.value "kind")
  let repo ← repoNamed state name
  secretAllowed repo what
  let id := repo.secretId what
  let r ← putSecret put id (state.config.nextVersion id) 8 (state.config.nextVersion id)
  return (repo, r)

/-! ## Reading a repository -/

section

variable {V : Type}

/-- What a repository is read with. -/
inductive Owned (V : Type) where
  | none
  | token (username : String) (token : V)
  | ssh (key : V) (knownHost : String)

/-- The secret that Git is given. -/
def Owned.secret? : Owned V → Option V
  | .none => Option.none
  | .token _ v | .ssh v _ => some v

/-- The latest version of a secret, from the secret store. -/
def latest (state : Registry) (get : SecretRef → Except SecretError V) (id what : String) : Except String V :=
  match state.config.versions.find id with
  | none => .error s!"no {what} has been saved; use `repo-secret`"
  | some r => (get r).mapError fun e => s!"the {what} ({r.id}@{r.version.toNat}) cannot be used: {e.toStr}"

/-- What the repository is read with. It is asked for before Git is run on `repo.url`, in `run_source` and in
`poll_repo`; both compare the registration with the recorded one only after that. -/
def credential (state : Registry) (get : SecretRef → Except SecretError V) (repo : RepoRec) : Except String (Owned V) :=
  match repo.cred with
  | .none => .ok .none
  | .token => do
    let v ← latest state get (repo.secretId "credential") "credential"
    return .token (repo.username.getD "x-access-token") v
  | .sshKey => do
    let v ← latest state get (repo.secretId "credential") "credential"
    match repo.knownHost with
    | some host => return .ssh v host
    | none => throw "the repository has no pinned host key"

end

end Harpoon.Git
