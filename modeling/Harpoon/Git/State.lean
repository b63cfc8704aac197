import Harpoon.Deploy.Ids
import Harpoon.Keyed.Table

/-!
# What is recorded of Git sources

The registrations of repositories, the commits observed on their branches, the source of each deployment,
and the registrations that were removed (`git.rs`). `GitState` is rebuilt by applying the records in order.
-/

namespace Harpoon.Git

open Deploy

/-! ## Branch filters -/

/-- The matcher of `globMatch`. `star` is the pattern after the last `*` that was met, `m` the text from
where that `*` is tried, or the whole text before the first; `k` characters of `m` are matched since. -/
def globLoop (star : Option (List Char)) (p m : List Char) (k : Nat) : Bool :=
  match _rest : m.drop k with
  | [] => p.all (· = '*')
  | c :: _ =>
    match p with
    | pc :: ps =>
      if pc = '?' ∨ pc = c then globLoop star ps m (k + 1)
      else if pc = '*' then globLoop (some ps) ps (m.drop k) 0
      else
        match star with
        | some sp => globLoop star sp m.tail 0
        | none => false
    | [] =>
      match star with
      | some sp => globLoop star sp m.tail 0
      | none => false
termination_by (m.length, p.length)
decreasing_by
  all_goals
    have some : m ≠ [] := by
      rintro rfl
      rw [List.drop_nil] at _rest
      cases _rest
    have shorter : m.tail.length < m.length := by
      cases m with
      | nil => exact absurd rfl some
      | cons _ _ => exact Nat.lt_succ_self _
    have suffix : (m.drop k).length ≤ m.length := by
      rw [List.length_drop]
      exact Nat.sub_le _ _
    first
      | exact Prod.Lex.right _ (Nat.lt_succ_self _)
      | exact Prod.Lex.left _ _ shorter
      | exact (Nat.lt_or_eq_of_le suffix).elim (Prod.Lex.left _ _) fun same =>
          same ▸ Prod.Lex.right _ (Nat.lt_succ_self _)

/-- `*` matches any run of characters, `?` one character. -/
def globMatch (pattern text : String) : Bool := globLoop none pattern.toList text.toList 0

/-! ## Records -/

inductive CredKind where
  /-- A public repository. -/
  | none
  | token
  | sshKey
  deriving DecidableEq, Repr

inductive WebhookKind where
  | gitHub
  | gitLab
  deriving DecidableEq, Repr

/-- A registration. -/
structure RepoRec where
  name : String
  url : String
  username : Option String
  cred : CredKind
  /-- The pinned host key, for SSH. -/
  knownHost : Option String
  webhook : Option WebhookKind
  app : ApplicationId
  project : Option String
  environment : Option String
  /-- The branch that is deployed by default. -/
  branch : String
  /-- Patterns of the branches that are deployed automatically; none means `branch` alone. -/
  filters : List String
  containerPort : UInt16
  dockerfile : Option String
  context : Option String
  target : Option String
  healthPath : Option String
  atMs : Nat
  deriving DecidableEq, Repr

/-- Whether a push to the branch is deployed automatically. -/
def RepoRec.wantsBranch (r : RepoRec) (branch : String) : Bool :=
  if r.filters.isEmpty then branch = r.branch else r.filters.any fun f => globMatch f branch

/-- The delivery id of a commit that a poll found. It names the incarnation of the application's
registration, unless that is the first one. -/
def pollDelivery (name : String) (incarnation : Nat) (commit : String) : String :=
  if incarnation = 0 then s!"poll:{name}:{commit}" else s!"poll:{name}:r{incarnation}:{commit}"

/-- The commit observed on a branch. -/
structure SeenRec where
  repo : String
  refName : String
  commit : String
  atMs : Nat
  deriving DecidableEq, Repr

def SeenRec.key (s : SeenRec) : String × String := (s.repo, s.refName)

inductive SelectorKind where
  | branch
  | tag
  | commit
  deriving DecidableEq, Repr

/-- The source of one deployment. -/
structure SourceRec where
  deployment : DeploymentId
  repo : String
  url : String
  selector : SelectorKind
  /-- The branch or tag that was asked for, or `-`. -/
  requested : String
  commit : String
  trigger : String
  delivery : Option String
  atMs : Nat
  deriving DecidableEq, Repr

/-- A registration that was removed. -/
structure RemovedRec where
  name : String
  app : ApplicationId
  /-- The time of the registration that was removed. -/
  registration : Nat
  url : String
  cred : CredKind
  atMs : Nat
  deriving DecidableEq, Repr

inductive GitRecord where
  | repo (r : RepoRec)
  | seen (s : SeenRec)
  | source (s : SourceRec)
  | removed (r : RemovedRec)
  deriving DecidableEq, Repr

/-! ## The state -/

structure GitState where
  /-- The latest registration of each repository. -/
  repos : Keyed.Table RepoRec.name
  /-- The latest observed commit of each branch. -/
  seen : Keyed.Table SeenRec.key
  sources : List SourceRec
  /-- Every removal, in the order they happened. -/
  retired : List RemovedRec
  deriving DecidableEq

namespace GitState

def new : GitState := ⟨.empty, .empty, [], []⟩

/-- The name an application was registered under when its registration was removed. -/
def retiredOwner (s : GitState) (app : ApplicationId) : Option String :=
  (s.retired.find? fun x => x.app = app).map (·.name)

/-- How many times the application's registration was removed. -/
def incarnation (s : GitState) (app : ApplicationId) : Nat := (s.retired.filter fun x => x.app = app).length

/-- An application has one repository, and one that was removed belongs to its name for good. -/
def applyRepo (s : GitState) (x : RepoRec) : Except String GitState :=
  match s.repos.rows.find? fun o => o.name ≠ x.name ∧ o.app = x.app with
  | some other => .error s!"application {x.app} is already deployed from repository {other.name}"
  | none =>
    match (s.retiredOwner x.app).filter fun owner => owner ≠ x.name with
    | some owner =>
      .error s!"application {x.app} belongs to the removed repository {owner}; only that name can claim it again"
    | none => .ok { s with repos := s.repos.insert x }

/-- A removal names exactly the registration it removes. -/
def applyRemoved (s : GitState) (x : RemovedRec) : Except String GitState :=
  match s.repos.find x.name with
  | none => .error s!"a removal names repository {x.name}, which is not registered"
  | some live =>
    if live.app ≠ x.app then
      .error s!"a removal of repository {x.name} names application {x.app}, which is not its application"
    else if live.atMs ≠ x.registration then
      .error s!"a removal of repository {x.name} names another version of its registration"
    else if live.url ≠ x.url ∨ live.cred ≠ x.cred then
      .error s!"a removal of repository {x.name} does not match the registration it removes"
    else
      .ok { s with
        repos := s.repos.remove x.name
        -- Observations belong to the registration, not to the name.
        seen := s.seen.keep fun k => k.1 ≠ x.name
        retired := s.retired ++ [x] }

def applySeen (s : GitState) (x : SeenRec) : Except String GitState :=
  if (s.repos.find x.repo).isNone then
    .error s!"an observation names repository {x.repo}, which is not registered"
  else .ok { s with seen := s.seen.insert x }

def applySource (s : GitState) (x : SourceRec) : Except String GitState :=
  if s.sources.any fun o => o.deployment = x.deployment then
    .error s!"deployment {x.deployment} has two recorded sources"
  else if (s.repos.find x.repo).isNone then
    .error s!"a source names repository {x.repo}, which is not registered"
  else .ok { s with sources := s.sources ++ [x] }

/-- Apply one record, refusing any that contradicts the state so far. -/
def apply (s : GitState) : GitRecord → Except String GitState
  | .repo x => s.applyRepo x
  | .seen x => s.applySeen x
  | .source x => s.applySource x
  | .removed x => s.applyRemoved x

/-- `apply` on the state in place, statement by statement: whoever applies a record keeps the state when the
record is refused. -/
def applyInPlace : GitRecord → ExceptT String (StateM GitState) Unit
  | .repo x => do
    if let some other := (← get).repos.rows.find? fun o => o.name ≠ x.name ∧ o.app = x.app then
      throw s!"application {x.app} is already deployed from repository {other.name}"
    if let some owner := (← get).retiredOwner x.app then
      if owner ≠ x.name then
        throw s!"application {x.app} belongs to the removed repository {owner}; only that name can claim it again"
    modify fun s => { s with repos := s.repos.insert x }
  | .removed x => do
    let some live := (← get).repos.find x.name | throw s!"a removal names repository {x.name}, which is not registered"
    if live.app ≠ x.app then
      throw s!"a removal of repository {x.name} names application {x.app}, which is not its application"
    if live.atMs ≠ x.registration then
      throw s!"a removal of repository {x.name} names another version of its registration"
    if live.url ≠ x.url ∨ live.cred ≠ x.cred then
      throw s!"a removal of repository {x.name} does not match the registration it removes"
    modify fun s => { s with repos := s.repos.remove x.name }
    modify fun s => { s with seen := s.seen.keep fun k => k.1 ≠ x.name }
    modify fun s => { s with retired := s.retired ++ [x] }
  | .seen x => do
    if ((← get).repos.find x.repo).isNone then
      throw s!"an observation names repository {x.repo}, which is not registered"
    modify fun s => { s with seen := s.seen.insert x }
  | .source x => do
    if (← get).sources.any fun o => o.deployment = x.deployment then
      throw s!"deployment {x.deployment} has two recorded sources"
    if ((← get).repos.find x.repo).isNone then
      throw s!"a source names repository {x.repo}, which is not registered"
    modify fun s => { s with sources := s.sources ++ [x] }

/-- Every record in order, as a start applies them. -/
def replay (records : List GitRecord) : Except String GitState := records.foldlM apply new

end GitState

end Harpoon.Git
