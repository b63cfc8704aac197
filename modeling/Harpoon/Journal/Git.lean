import Harpoon.Git.Registry
import Harpoon.Journal.Format

/-!
# Git records as lines

The encoder and the decoder of `git.rs`. Free texts are in hexadecimal; names, commits, triggers and delivery
identities stand in their fields as they are, and `-` stands for what is not there.
-/

namespace Harpoon.Git

open Deploy Wire Journal

/-! ## Words -/

def CredKind.asStr : CredKind → String
  | .none => "none"
  | .token => "token"
  | .sshKey => "sshkey"

def CredKind.parse : String → Except String CredKind
  | "none" => .ok .none
  | "token" => .ok .token
  | "sshkey" => .ok .sshKey
  | _ => .error "unknown credential kind"

def WebhookKind.asStr : WebhookKind → String
  | .gitHub => "github"
  | .gitLab => "gitlab"

def SelectorKind.asStr : SelectorKind → String
  | .branch => "branch"
  | .tag => "tag"
  | .commit => "commit"

def SelectorKind.parse : String → Except String SelectorKind
  | "branch" => .ok .branch
  | "tag" => .ok .tag
  | "commit" => .ok .commit
  | _ => .error "unknown selector"

/-- A full object id: 40 or 64 hexadecimal digits in lower case. -/
def isCommit (v : String) : Bool :=
  (v.utf8ByteSize = 40 || v.utf8ByteSize = 64) &&
    v.toList.all fun c => '0' ≤ c && c ≤ '9' || 'a' ≤ c && c ≤ 'f'

def checkName (v : String) : Except String Unit := token "a repository name" v

def RemovedRec.validate (r : RemovedRec) : Except String Unit := do
  checkName r.name
  let _ ← validateUrl r.url
  return ()

/-! ## Writing -/

def opt (v : Option String) : String := (v.map hexText).getD "-"

def filterField (filters : List String) : String := if filters = [] then "-" else joined ',' (filters.map hexText)

def repoFields (x : RepoRec) : List String :=
  ["gitrepo", "1", x.name, hexText x.url, opt x.username, x.cred.asStr, opt x.knownHost,
    (x.webhook.map WebhookKind.asStr).getD "-", x.app.asStr, opt x.project, opt x.environment, hexText x.branch,
    filterField x.filters, x.containerPort.toNat.repr, opt x.dockerfile, opt x.context, opt x.target,
    opt x.healthPath, x.atMs.repr]

def removedFields (x : RemovedRec) : List String :=
  ["gitdrop", "1", x.name, x.app.asStr, x.registration.repr, hexText x.url, x.cred.asStr, x.atMs.repr]

def seenFields (s : SeenRec) : List String := ["gitseen", "1", s.repo, hexText s.refName, s.commit, s.atMs.repr]

def sourceFields (s : SourceRec) : List String :=
  ["gitsrc", "1", s.deployment.asStr, s.repo, hexText s.url, s.selector.asStr, hexText s.requested, s.commit, s.trigger,
    s.delivery.getD "-", s.atMs.repr]

/-- The fields of a record's body. -/
def recordFields : GitRecord → List String
  | .repo x => repoFields x
  | .removed x => removedFields x
  | .seen s => seenFields s
  | .source s => sourceFields s

def encode (r : GitRecord) : String := frame (joined '\t' (recordFields r))

/-! ## Reading -/

def unopt (s : String) : Except String (Option String) :=
  if s = "-" then .ok none else some <$> need "a field is not valid" (unhexText s)

def decodeFilters (s : String) : Except String (List String) :=
  if s = "-" then .ok [] else (fields ',' s).mapM fun x => need "a filter is not valid" (unhexText x)

def decodeWebhook : String → Except String (Option WebhookKind)
  | "-" => .ok none
  | "github" => .ok (some .gitHub)
  | "gitlab" => .ok (some .gitLab)
  | _ => .error "unknown webhook kind"

def readApp (s : String) : Except String ApplicationId := readId .application "bad application id" s

def decodeRepo : List String → Except String RepoRec
  | [name, url, username, cred, knownHost, webhook, app, project, environment, branch, filters, containerPort,
      dockerfile, context, target, healthPath, atMs] => do
    let filters ← decodeFilters filters
    let url ← need "the URL is not valid" (unhexText url)
    let username ← unopt username
    let cred ← CredKind.parse cred
    let knownHost ← unopt knownHost
    let webhook ← decodeWebhook webhook
    let app ← readApp app
    let project ← unopt project
    let environment ← unopt environment
    let branch ← need "the branch is not valid" (unhexText branch)
    let containerPort ← need "bad container port" (parseUnsigned 10 0xFFFF containerPort)
    let dockerfile ← unopt dockerfile
    let context ← unopt context
    let target ← unopt target
    let healthPath ← unopt healthPath
    let atMs ← number "bad time" atMs
    let x : RepoRec :=
      ⟨name, url, username, cred, knownHost, webhook, app, project, environment, branch, filters,
        UInt16.ofNat containerPort, dockerfile, context, target, healthPath, atMs⟩
    let _ ← x.validate
    return x
  | _ => .error "a repository record has the wrong number of fields"

def decodeRemoved : List String → Except String RemovedRec
  | [name, app, registration, url, cred, atMs] => do
    let app ← readApp app
    let registration ← number "bad registration version" registration
    let url ← need "the URL is not valid" (unhexText url)
    let cred ← CredKind.parse cred
    let atMs ← number "bad time" atMs
    let x : RemovedRec := ⟨name, app, registration, url, cred, atMs⟩
    x.validate
    return x
  | _ => .error "a removal record has the wrong number of fields"

/-- What names a commit. -/
def checkCommit (why commit : String) : Except String Unit := if isCommit commit then .ok () else .error why

def decodeSeen : List String → Except String SeenRec
  | [repo, refName, commit, atMs] => do
    checkName repo
    checkCommit "an observation names no commit" commit
    let refName ← need "the ref is not valid" (unhexText refName)
    let atMs ← number "bad time" atMs
    return ⟨repo, refName, commit, atMs⟩
  | _ => .error "an observation has the wrong number of fields"

def decodeSource : List String → Except String SourceRec
  | [deployment, repo, url, selector, requested, commit, trigger, delivery, atMs] => do
    checkName repo
    checkCommit "a source record names no commit" commit
    let url ← need "the URL is not valid" (unhexText url)
    let _ ← validateUrl url
    let deployment ← readId .deployment "bad deployment id" deployment
    let selector ← SelectorKind.parse selector
    let requested ← need "the requested ref is not valid" (unhexText requested)
    let atMs ← number "bad time" atMs
    return ⟨deployment, repo, url, selector, requested, commit, trigger, if delivery = "-" then none else some delivery,
      atMs⟩
  | _ => .error "a source record has the wrong number of fields"

/-- A record from the fields of its body. -/
def decode (f : List String) : Except String GitRecord :=
  if f[1]? ≠ some "1" then .error "unknown git record version"
  else
    match f.headD "" with
    | "gitrepo" => .repo <$> decodeRepo (f.drop 2)
    | "gitdrop" => .removed <$> decodeRemoved (f.drop 2)
    | "gitseen" => .seen <$> decodeSeen (f.drop 2)
    | "gitsrc" => .source <$> decodeSource (f.drop 2)
    | _ => .error "not a git record"

section

variable {β : Type} (others : List String → Except String β)

/-- The bodies of Git records, and of the other kinds that the journal does not look into. -/
def decodeOther (f : List String) : Except String (GitRecord ⊕ β) :=
  if f.headD "" ∈ ["gitrepo", "gitseen", "gitsrc", "gitdrop"] then .inl <$> decode f else .inr <$> others f

end

end Harpoon.Git
