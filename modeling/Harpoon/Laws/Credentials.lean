import Harpoon.Git.Registry
import Harpoon.Journal.Frame
import Harpoon.Laws.Sources

/-!
# Where a saved credential goes

Commands on registrations and runs of Git take turns. A command reads the journal before it holds it, so what
it has read may be out of date by the time it writes; a run of Git is handed the credential of a registration
that may have been replaced since it was read.

A command keeps the destination of a name's credential whenever it looks at the credentials that are recorded
by then. So Git is given a credential only with a URL of the destination that it was saved for, as long as it
is run on the current registration (`credentials_confined`).
-/

namespace Harpoon.Git

open Deploy Control Config Journal

variable {s s' seen : Registry} {p : Parsed} {x repo : RepoRec} {y : RemovedRec} {name what url old new : String}
  {cred : CredKind} {early : Option Registry} {verified : Except String Unit} {fresh : Except String ApplicationId}
  {nowMs : Nat}

/-! ## Destinations that stay -/

/-- The two URLs are one, or of one destination. -/
def SamePlace (a b : String) : Prop := a = b ∨ ∃ d, destination a = some d ∧ destination b = some d

theorem SamePlace.destination {a b : String} (same : SamePlace a b) : destination a = destination b := by
  rcases same with rfl | ⟨d, first, second⟩
  · rfl
  · exact first.trans second.symm

theorem SamePlace.trans {a b c : String} (first : SamePlace a b) (second : SamePlace b c) : SamePlace a c := by
  rcases second with rfl | ⟨d, here, there⟩
  · exact first
  · exact .inr ⟨d, first.destination.trans here, there⟩

theorem keepCredentialDestination_ok {label : String} (kept : keepCredentialDestination name label old new = .ok ()) :
    SamePlace old new := by
  unfold keepCredentialDestination at kept
  split at kept
  next was now first second =>
    split at kept
    next same => exact .inr ⟨was, first, same ▸ second⟩
    next => cases kept
  next => cases kept

/-- A registration whose credential is on record stays where it is. -/
theorem guardCredentialDestination_ok (kept : guardCredentialDestination s name new = .ok ())
    (anchor : credentialAnchor s name = some (old, cred)) (onRecord : credentialOnRecord s name cred) :
    SamePlace old new := by
  unfold guardCredentialDestination at kept
  rw [anchor] at kept
  dsimp only at kept
  split at kept
  next => exact keepCredentialDestination_ok kept
  next keeps =>
    refine .inl (Decidable.byContradiction fun moved => keeps ⟨moved, onRecord⟩)

/-! ## What the commands accept -/

theorem guardAddition_ok {a : Addition} (accepted : guardAddition a s = .ok ()) :
    guardCredentialDestination s a.name a.url = .ok () := by
  obtain ⟨_, _, accepted⟩ := bind_ok accepted
  obtain ⟨_, _, accepted⟩ := bind_ok accepted
  obtain ⟨_, _, accepted⟩ := bind_ok accepted
  exact accepted

theorem repoAdd_ok (added : repoAdd p early verified s fresh nowMs = .ok x) :
    guardCredentialDestination s x.name x.url = .ok () := by
  obtain ⟨a, _, added⟩ := bind_ok added
  obtain ⟨_, _, added⟩ := bind_ok added
  obtain ⟨_, _, added⟩ := bind_ok added
  obtain ⟨_, guarded, added⟩ := bind_ok added
  obtain ⟨app, _, added⟩ := bind_ok added
  obtain ⟨port, _, added⟩ := bind_ok added
  obtain ⟨_, _, added⟩ := bind_ok added
  obtain ⟨_, _, added⟩ := bind_ok added
  cases added
  exact guardAddition_ok guarded

theorem repoNamed_ok (named : repoNamed s name = .ok repo) : s.git.repos.find name = some repo := by
  unfold repoNamed at named
  split at named
  next found =>
    cases named
    exact found
  next =>
    split at named
    · cases named
    · cases named

theorem refuseIf_ok {condition : Bool} {why : Fail} (passed : refuseIf condition why = .ok ()) : condition = false := by
  cases condition with
  | true => cases passed
  | false => rfl

theorem editDockerfile_ok (edit : editDockerfile p repo = .ok x) : x.name = repo.name := by
  obtain ⟨given, _, edit⟩ := bind_ok edit
  cases given with
  | none =>
    cases edit
    rfl
  | some d =>
    obtain ⟨_, _, edit⟩ := bind_ok edit
    cases edit
    rfl

theorem editHealthPath_ok (edit : editHealthPath p repo = .ok x) : x.name = repo.name := by
  obtain ⟨given, _, edit⟩ := bind_ok edit
  cases given with
  | none =>
    cases edit
    rfl
  | some h =>
    obtain ⟨_, _, edit⟩ := bind_ok edit
    cases edit
    rfl

theorem editPort_ok (edit : editPort p repo = .ok x) : x.name = repo.name := by
  unfold editPort at edit
  split at edit
  next =>
    cases edit
    rfl
  next =>
    obtain ⟨_, _, edit⟩ := bind_ok edit
    cases edit
    rfl

/-- An edit keeps the name. -/
theorem edited_ok (edit : edited p repo = .ok x) : x.name = repo.name := by
  obtain ⟨_, dockerfile, edit⟩ := bind_ok edit
  obtain ⟨_, healthPath, edit⟩ := bind_ok edit
  obtain ⟨_, port, edit⟩ := bind_ok edit
  obtain ⟨_, _, edit⟩ := bind_ok edit
  cases edit
  have kept : _ = (editBranch p (editUrl p repo)).name := editDockerfile_ok dockerfile
  exact (editPort_ok port).trans ((editHealthPath_ok healthPath).trans kept)

theorem guardUpdate_ok {current : RepoRec} (passed : guardUpdate p current x s = .ok ()) :
    s.git.repos.find current.name = some current := by
  obtain ⟨_, same, _⟩ := bind_ok passed
  have same := refuseIf_ok same
  exact Decidable.not_not.mp (of_decide_eq_false same)

theorem need_ok {flag v : String} (needed : p.need flag = .ok v) : p.value flag = some v := by
  unfold Parsed.need at needed
  split at needed
  next given =>
    cases needed
    exact given
  next => cases needed

theorem repoUpdate_ok (updated : repoUpdate p seen verified s nowMs = .ok x) :
    ∃ current, seen.git.repos.find x.name = some current ∧ s.git.repos.find x.name = some current ∧
      p.value "name" = some x.name ∧ guardCredentialDestination seen x.name x.url = .ok () := by
  obtain ⟨name, needed, updated⟩ := bind_ok updated
  obtain ⟨_, _, updated⟩ := bind_ok updated
  obtain ⟨current, named, updated⟩ := bind_ok updated
  obtain ⟨_, _, updated⟩ := bind_ok updated
  obtain ⟨r, edit, updated⟩ := bind_ok updated
  obtain ⟨_, _, updated⟩ := bind_ok updated
  obtain ⟨_, guarded, updated⟩ := bind_ok updated
  obtain ⟨_, _, updated⟩ := bind_ok updated
  obtain ⟨_, passed, updated⟩ := bind_ok updated
  obtain ⟨_, _, updated⟩ := bind_ok updated
  cases updated
  have found := repoNamed_ok named
  have here : current.name = name := Keyed.Table.key_of_find found
  have same : r.name = name := (edited_ok edit).trans here
  have still := guardUpdate_ok passed
  rw [here] at still
  rw [← same] at found still needed guarded
  exact ⟨current, found, still, need_ok needed, guarded⟩

theorem removable_ok {expect : Nat} {application : Bool} (allowed : removable s name expect application = .ok repo) :
    s.git.repos.find name = some repo := by
  unfold removable at allowed
  split at allowed
  next =>
    split at allowed
    · cases allowed
    · cases allowed
  next found =>
    obtain ⟨_, _, allowed⟩ := bind_ok allowed
    obtain ⟨_, _, allowed⟩ := bind_ok allowed
    obtain ⟨_, _, allowed⟩ := bind_ok allowed
    cases allowed
    exact found

/-- A removal is of the registration that is recorded, and keeps its URL. -/
theorem remove_ok {capability backup : Except Fail Unit} {application : Bool}
    (removed : remove p capability seen s backup nowMs application = .ok y) :
    ∃ live, s.git.repos.find y.name = some live ∧ y.url = live.url := by
  obtain ⟨_, _, removed⟩ := bind_ok removed
  obtain ⟨name, _, removed⟩ := bind_ok removed
  obtain ⟨_, _, removed⟩ := bind_ok removed
  obtain ⟨_, _, removed⟩ := bind_ok removed
  obtain ⟨repo, _, removed⟩ := bind_ok removed
  obtain ⟨now, allowed, removed⟩ := bind_ok removed
  obtain ⟨_, same, removed⟩ := bind_ok removed
  obtain ⟨_, _, removed⟩ := bind_ok removed
  obtain ⟨_, _, removed⟩ := bind_ok removed
  cases removed
  have same : now = repo := Decidable.not_not.mp (of_decide_eq_false (refuseIf_ok same))
  have found := removable_ok allowed
  rw [← Keyed.Table.key_of_find found, same] at found
  exact ⟨repo, found, rfl⟩

section

variable {V : Type} {put : SecretRef → Except SecretError Unit} {get : SecretRef → Except SecretError V} {r : SecretRef}
  {owned : Owned V} {v : V}

theorem putSecret_ok {id : String} {first version : UInt32} {tries : Nat}
    (saved : putSecret put id first tries version = .ok r) : r.id = id ∧ put r = .ok () := by
  induction tries generalizing version with
  | zero =>
    unfold putSecret at saved
    split at saved
    next _ _ done =>
      cases saved
      exact ⟨rfl, done⟩
    next more => cases more
    next => cases saved
  | succ tries ih =>
    unfold putSecret at saved
    split at saved
    next _ _ done =>
      cases saved
      exact ⟨rfl, done⟩
    next more =>
      cases more
      split at saved
      · exact ih saved
      · cases saved
    next => cases saved

/-- A secret is saved for a registration, under its name. -/
theorem repoSecret_ok (saved : repoSecret p s put = .ok (repo, r)) :
    s.git.repos.find repo.name = some repo ∧ put r = .ok () ∧
      ∃ what, r.id = secretIdFor repo.name what ∧ (what = "credential" ∨ what = "webhook") := by
  obtain ⟨name, _, saved⟩ := bind_ok saved
  obtain ⟨what, kind, saved⟩ := bind_ok saved
  obtain ⟨_, named, saved⟩ := bind_ok saved
  obtain ⟨_, _, saved⟩ := bind_ok saved
  obtain ⟨_, put, saved⟩ := bind_ok saved
  cases saved
  obtain ⟨id, done⟩ := putSecret_ok put
  have found := repoNamed_ok named
  rw [← Keyed.Table.key_of_find found] at found
  refine ⟨found, done, what, id, ?_⟩
  unfold secretKind at kind
  split at kind
  next =>
    split at kind
    next one =>
      cases kind
      exact one
    next => cases kind
  next => cases kind

theorem latest_ok {id : String} (found : latest s get id what = .ok v) :
    ∃ r, s.config.versions.find id = some r ∧ get r = .ok v := by
  unfold latest at found
  split at found
  next => cases found
  next r last =>
    cases given : get r with
    | error e =>
      rw [given] at found
      cases found
    | ok _ =>
      rw [given] at found
      cases found
      exact ⟨r, last, given⟩

/-- Git is given the latest credential of the name. -/
theorem credential_ok (given : credential s get repo = .ok owned) (secret : owned.secret? = some v) :
    ∃ r, s.config.versions.find (secretIdFor repo.name "credential") = some r ∧ get r = .ok v := by
  unfold credential at given
  split at given
  next =>
    cases given
    cases secret
  next =>
    obtain ⟨_, found, given⟩ := bind_ok given
    cases given
    cases secret
    exact latest_ok found
  next =>
    obtain ⟨_, found, given⟩ := bind_ok given
    split at given
    next =>
      cases given
      cases secret
      exact latest_ok found
    next => cases given

end

/-! ## Commands and runs of Git in turns -/

/-- A secret in the secret store. -/
structure Item where
  ref : SecretRef
  value : Wire.Bytes
  /-- The URL that its repository was registered with when it was saved. -/
  savedFor : String
  deriving DecidableEq

/-- A secret that Git was given, and the URL that it was run on. -/
structure Use where
  url : String
  item : Item
  deriving DecidableEq

/-- The journal and the secret store of one machine. -/
structure Host where
  stored : Registry
  /-- What the journal said before, the latest first. -/
  past : List Registry
  keychain : Keyed.Table Item.ref
  uses : List Use

namespace Host

def start : Host := ⟨⟨⟨.new, .new⟩, .empty, [], ⟨[]⟩⟩, [], .empty, []⟩

/-- What was read so many writes ago. -/
def before (w : Host) (ago : Nat) : Registry := (w.stored :: w.past).getD ago w.stored

def write (w : Host) (stored : Registry) : Host := { w with stored := stored, past := w.stored :: w.past }

def writeGit (w : Host) (r : GitRecord) : Host :=
  match w.stored.git.apply r with
  | .ok git => w.write { w.stored with git := git }
  | .error _ => w

/-- The secret store's answer to a save. It may refuse any, and it has one secret under a reference. -/
def put (w : Host) (refuses : SecretRef → Option SecretError) (r : SecretRef) : Except SecretError Unit :=
  match refuses r with
  | some e => .error e
  | none => if (w.keychain.find r).isSome then .error .duplicate else .ok ()

def get (w : Host) (refuses : SecretRef → Option SecretError) (r : SecretRef) : Except SecretError Item :=
  match refuses r, w.keychain.find r with
  | some e, _ => .error e
  | none, some item => .ok item
  | none, none => .error .notFound

end Host

/-- What a process does next. `ago` says how old its earlier reading is. -/
inductive Action where
  | add (p : Parsed) (ago : Option Nat) (verified : Except String Unit) (fresh : Except String ApplicationId) (nowMs : Nat)
  | update (p : Parsed) (ago : Nat) (verified : Except String Unit) (nowMs : Nat)
  | remove (p : Parsed) (capability : Except Fail Unit) (ago : Nat) (backup : Except Fail Unit) (nowMs : Nat)
      (application : Bool)
  /-- The version may be recorded or not when the write fails, and the secret deleted again or not. -/
  | secret (p : Parsed) (value : Wire.Bytes) (refuses : SecretRef → Option SecretError) (nowMs : Nat)
      (recorded kept : Bool)
  /-- Run Git on a repository that is registered, or was, under the name. -/
  | fetch (name : String) (ago : Nat) (refuses : SecretRef → Option SecretError)
  /-- Anything else that is written. -/
  | other (ctl : ControlState) (deployments : List Deployment) (ledger : Ledger) (seen : Keyed.Table SeenRec.key)
      (sources : List SourceRec) (defs : List Def) (snapshots : List Snapshot)

namespace Host

/-- The secret that was saved, and its record. A record that contradicts the journal stops every later command,
so that nothing is left to say. -/
def save (w : Host) (item : Item) (nowMs : Nat) (recorded kept : Bool) : Host :=
  let config : Except String ConfigState :=
    if recorded then w.stored.config.apply (.secretSaved ⟨item.ref.id, item.ref.version, nowMs⟩)
    else .ok w.stored.config
  match config with
  | .ok config =>
    { w.write { w.stored with config := config } with
      keychain := if kept then w.keychain.insert item else w.keychain }
  | .error _ => w

/-! What comes of each action. A command that fails changes nothing. -/

def add (w : Host) (p : Parsed) (ago : Option Nat) (verified : Except String Unit)
    (fresh : Except String ApplicationId) (nowMs : Nat) : Host :=
  match repoAdd p (ago.map w.before) verified w.stored fresh nowMs with
  | .ok x => w.writeGit (.repo x)
  | .error _ => w

def update (w : Host) (p : Parsed) (ago : Nat) (verified : Except String Unit) (nowMs : Nat) : Host :=
  match repoUpdate p (w.before ago) verified w.stored nowMs with
  | .ok x => w.writeGit (.repo x)
  | .error _ => w

def remove (w : Host) (p : Parsed) (capability : Except Fail Unit) (ago : Nat) (backup : Except Fail Unit) (nowMs : Nat)
    (application : Bool) : Host :=
  match Git.remove p capability (w.before ago) w.stored backup nowMs application with
  | .ok x => w.writeGit (.removed x)
  | .error _ => w

def secret (w : Host) (p : Parsed) (value : Wire.Bytes) (refuses : SecretRef → Option SecretError) (nowMs : Nat)
    (recorded kept : Bool) : Host :=
  match repoSecret p w.stored (w.put refuses) with
  | .ok (repo, r) => w.save ⟨r, value, repo.url⟩ nowMs recorded kept
  | .error _ => w

/-- Git is run with the credential of the registration that was read, as it is recorded now. -/
def fetch (w : Host) (name : String) (ago : Nat) (refuses : SecretRef → Option SecretError) : Host :=
  match (w.before ago).git.repos.find name with
  | some repo =>
    match credential w.stored (w.get refuses) repo with
    | .ok owned => { w with uses := w.uses ++ (owned.secret?.map (Use.mk repo.url)).toList }
    | .error _ => w
  | none => w

def next (w : Host) : Action → Host
  | .add p ago verified fresh nowMs => w.add p ago verified fresh nowMs
  | .update p ago verified nowMs => w.update p ago verified nowMs
  | .remove p capability ago backup nowMs application => w.remove p capability ago backup nowMs application
  | .secret p value refuses nowMs recorded kept => w.secret p value refuses nowMs recorded kept
  | .fetch name ago refuses => w.fetch name ago refuses
  | .other ctl deployments ledger seen sources defs snapshots =>
    w.write
      { git := { w.stored.git with seen := seen, sources := sources }
        control := ctl
        config := { w.stored.config with defs := defs, snapshots := snapshots }
        deployments := deployments
        ledger := ledger }

def run (w : Host) (actions : List Action) : Host := actions.foldl next w

/-- No credential went to another destination than it was saved for. -/
def Confined (w : Host) : Prop := ∀ u ∈ w.uses, destination u.item.savedFor = destination u.url

/-- Git is run on the registration that is recorded when its credential is looked up; and an edit knows of a
credential that was recorded since it read the journal. -/
def UpToDate (w : Host) : Action → Prop
  | .fetch name ago _ => (w.before ago).git.repos.find name = w.stored.git.repos.find name
  | .update p ago _ _ =>
    ∀ name, p.value "name" = some name →
      (w.stored.config.versions.find (secretIdFor name "credential")).isSome →
        ((w.before ago).config.versions.find (secretIdFor name "credential")).isSome
  | _ => True

/-- Every action of the run is up to date. -/
def AllUpToDate (w : Host) : List Action → Prop
  | [] => True
  | a :: rest => w.UpToDate a ∧ (w.next a).AllUpToDate rest

/-- Every recorded credential belongs to where its name is registered, or was last. -/
def Held (w : Host) : Prop :=
  ∀ name r, w.stored.config.versions.find (secretIdFor name "credential") = some r →
    ∃ url cred, credentialAnchor w.stored name = some (url, cred) ∧
      ∀ item, w.keychain.find r = some item → SamePlace item.savedFor url

end Host

/-! ## What is held -/

variable {w : Host} {a : Action} {actions : List Action} {r : SecretRef} {item : Item} {git : GitState}

/-- The id of a credential tells the name. -/
theorem secretIdFor_inj {other : String} (known : what = "credential" ∨ what = "webhook")
    (same : secretIdFor name what = secretIdFor other "credential") : name = other ∧ what = "credential" := by
  have chars := congrArg String.toList same
  simp only [secretIdFor, toString, String.toList_append] at chars
  rcases known with rfl | rfl
  · have chars := List.append_cancel_right (List.append_cancel_right chars)
    have chars := List.append_cancel_left chars
    exact ⟨String.toList_inj.mp chars, rfl⟩
  · have last := congrArg List.getLast? chars
    have k : "webhook".toList.getLast? = some 'k' := by decide
    have l : "credential".toList.getLast? = some 'l' := by decide
    rw [List.getLast?_append, k, Option.some_or, List.getLast?_append, l, Option.some_or] at last
    exact absurd (Option.some.inj last) (by decide)

theorem onRecord_of_find (found : (s.config.versions.find (secretIdFor name "credential")).isSome) :
    credentialOnRecord s name cred := by
  simp [credentialOnRecord, found]

theorem anchor_of_find (found : s.git.repos.find name = some repo) :
    credentialAnchor s name = some (repo.url, repo.cred) := by
  rw [credentialAnchor, found]

namespace Host

/-- The name is registered at the place where its credential belongs. -/
theorem Held.register (held : w.Held)
    (kept : ∀ r url cred, w.stored.config.versions.find (secretIdFor x.name "credential") = some r →
      credentialAnchor w.stored x.name = some (url, cred) → SamePlace url x.url) :
    (w.writeGit (.repo x)).Held := by
  unfold writeGit
  split
  next git applied =>
    obtain ⟨_, rfl⟩ := GitState.applyRepo_ok applied
    intro name r found
    obtain ⟨url, cred, anchor, items⟩ := held name r found
    by_cases here : x.name = name
    · subst here
      refine ⟨x.url, x.cred, anchor_of_find ?_, fun item mem => (items item mem).trans (kept r url cred found anchor)⟩
      exact Keyed.Table.find_insert.trans (if_pos rfl)
    · refine ⟨url, cred, ?_, items⟩
      simp only [credentialAnchor, write, Keyed.Table.find_insert, if_neg here]
      exact anchor
  next => exact held

theorem Held.unregister (held : w.Held) (live : w.stored.git.repos.find y.name = some repo) (same : y.url = repo.url) :
    (w.writeGit (.removed y)).Held := by
  unfold writeGit
  split
  next git applied =>
    obtain ⟨_, rfl⟩ := GitState.applyRemoved_ok applied
    intro name r found
    obtain ⟨url, cred, anchor, items⟩ := held name r found
    by_cases here : y.name = name
    · subst here
      rw [anchor_of_find live] at anchor
      cases anchor
      refine ⟨y.url, y.cred, ?_, same ▸ items⟩
      simp [credentialAnchor, write, GitState.retiredName, Keyed.Table.find_remove_self]
    · refine ⟨url, cred, ?_, items⟩
      simp only [credentialAnchor, write, GitState.retiredName, Keyed.Table.remove, Keyed.Table.find_keep,
        List.reverse_append, List.reverse_singleton, List.singleton_append, List.find?_cons, here, decide_false]
      rw [if_pos (decide_eq_true (Ne.symm here))]
      exact anchor
  next => exact held

theorem find_saved {c c' : ConfigState} {id : String}
    (applied : c.apply (.secretSaved ⟨item.ref.id, item.ref.version, nowMs⟩) = .ok c') :
    c'.versions.find id = if item.ref.id = id then some item.ref else c.versions.find id := by
  rw [ConfigState.apply] at applied
  split at applied
  · cases applied
  · cases applied
    exact Keyed.Table.find_insert

/-- A secret is saved where its name is registered. -/
theorem Held.save {recorded kept : Bool} (held : w.Held) (live : w.stored.git.repos.find repo.name = some repo)
    (known : what = "credential" ∨ what = "webhook") (id : item.ref.id = secretIdFor repo.name what)
    (savedFor : item.savedFor = repo.url) (free : w.keychain.find item.ref = none) :
    (w.save item nowMs recorded kept).Held := by
  have stays : SamePlace item.savedFor repo.url := .inl savedFor
  have items : ∀ {r i}, (if kept then w.keychain.insert item else w.keychain).find r = some i →
      i = item ∨ w.keychain.find r = some i := by
    intro r i found
    cases kept with
    | false => exact .inr found
    | true =>
      rw [if_pos rfl, Keyed.Table.find_insert] at found
      split at found
      · exact .inl (Option.some.inj found).symm
      · exact .inr found
  unfold Host.save
  dsimp only
  split
  next config applied =>
    have versions : ∀ {id}, config.versions.find id = w.stored.config.versions.find id ∨
        item.ref.id = id ∧ config.versions.find id = some item.ref := by
      intro id
      cases recorded with
      | false =>
        cases applied
        exact .inl rfl
      | true =>
        rw [find_saved applied]
        split
        next here => exact .inr ⟨here, rfl⟩
        next => exact .inl rfl
    intro name r found
    rcases versions with same | ⟨here, last⟩
    · obtain ⟨url, cred, anchor, belong⟩ := held name r (same.symm.trans found)
      refine ⟨url, cred, anchor, fun i mem => ?_⟩
      rcases items mem with rfl | older
      · -- It was saved under the recorded version, so for the same name.
        have version : r.id = secretIdFor name "credential" := Keyed.Table.key_of_find found
        rw [← Keyed.Table.key_of_find mem] at version
        obtain ⟨rfl, _⟩ := secretIdFor_inj known (id.symm.trans version)
        rw [anchor_of_find live] at anchor
        cases anchor
        exact stays
      · exact belong i older
    · obtain ⟨rfl, _⟩ := secretIdFor_inj known (id.symm.trans here)
      refine ⟨repo.url, repo.cred, anchor_of_find live, fun i mem => ?_⟩
      cases last.symm.trans found
      rcases items mem with rfl | older
      · exact stays
      · rw [free] at older
        cases older
  next => exact held

theorem put_ok {refuses : SecretRef → Option SecretError} (done : w.put refuses r = .ok ()) :
    w.keychain.find r = none := by
  unfold Host.put at done
  split at done
  next => cases done
  next =>
    split at done
    next => cases done
    next free => exact Option.not_isSome_iff_eq_none.mp free

theorem get_ok {refuses : SecretRef → Option SecretError} (found : w.get refuses r = .ok item) :
    w.keychain.find r = some item := by
  unfold Host.get at found
  split at found
  next => cases found
  next here =>
    cases found
    exact here
  next => cases found

theorem Held.add {ago : Option Nat} (held : w.Held) : (w.add p ago verified fresh nowMs).Held := by
  unfold Host.add
  split
  next x added =>
    refine held.register fun r url cred found anchor => ?_
    exact guardCredentialDestination_ok (repoAdd_ok added) anchor (onRecord_of_find (by rw [found]; rfl))
  next => exact held

theorem Held.update {ago : Nat} (held : w.Held) (upToDate : w.UpToDate (.update p ago verified nowMs)) :
    (w.update p ago verified nowMs).Held := by
  unfold Host.update
  split
  next x updated =>
    obtain ⟨current, before, still, named, guarded⟩ := repoUpdate_ok updated
    refine held.register fun r url cred found anchor => ?_
    have known := upToDate x.name named (by rw [found]; rfl)
    rw [anchor_of_find still] at anchor
    cases anchor
    exact guardCredentialDestination_ok guarded (anchor_of_find before) (onRecord_of_find known)
  next => exact held

theorem Held.remove {capability backup : Except Fail Unit} {ago : Nat} {application : Bool} (held : w.Held) :
    (w.remove p capability ago backup nowMs application).Held := by
  unfold Host.remove
  split
  next y removed =>
    obtain ⟨live, found, same⟩ := remove_ok removed
    exact held.unregister found same
  next => exact held

variable {refuses : SecretRef → Option SecretError}

theorem Held.secret {value : Wire.Bytes} {recorded kept : Bool} (held : w.Held) :
    (w.secret p value refuses nowMs recorded kept).Held := by
  unfold Host.secret
  split
  next repo r saved =>
    obtain ⟨live, done, what, id, known⟩ := repoSecret_ok saved
    exact held.save live known id rfl (put_ok done)
  next => exact held

/-- What Git is given by a run of it. -/
theorem fetch_cases (w : Host) (name : String) (ago : Nat) (refuses : SecretRef → Option SecretError) :
    w.fetch name ago refuses = w ∨ ∃ repo uses, (w.before ago).git.repos.find name = some repo ∧
      w.fetch name ago refuses = { w with uses := w.uses ++ uses } ∧
      ∀ u ∈ uses, u.url = repo.url ∧
        ∃ r, w.stored.config.versions.find (secretIdFor repo.name "credential") = some r ∧
          w.keychain.find r = some u.item := by
  unfold Host.fetch
  split
  next repo read =>
    split
    next owned given =>
      refine .inr ⟨repo, _, read, rfl, fun u mem => ?_⟩
      obtain ⟨item, secret, rfl⟩ := Option.map_eq_some_iff.mp (Option.mem_toList.mp mem)
      obtain ⟨r, last, found⟩ := credential_ok given secret
      exact ⟨rfl, r, last, get_ok found⟩
    next => exact .inl rfl
  next => exact .inl rfl

/-- Step lemma. -/
theorem Held.next (held : w.Held) (upToDate : w.UpToDate a) : (w.next a).Held := by
  cases a with
  | add => exact held.add
  | update => exact held.update upToDate
  | remove => exact held.remove
  | secret => exact held.secret
  | fetch name ago refuses =>
    rw [Host.next]
    rcases fetch_cases w name ago refuses with same | ⟨repo, uses, _, same, _⟩
    · rw [same]
      exact held
    · rw [same]
      exact held
  | other => exact held

theorem uses_writeGit {x : GitRecord} : (w.writeGit x).uses = w.uses := by
  unfold writeGit
  split <;> rfl

theorem uses_save {recorded kept : Bool} : (w.save item nowMs recorded kept).uses = w.uses := by
  unfold Host.save
  dsimp only
  split <;> rfl

/-- Only a run of Git gives it anything. -/
theorem uses_next (other : ∀ name ago refuses, a ≠ .fetch name ago refuses) : (w.next a).uses = w.uses := by
  cases a with
  | add =>
    unfold Host.next Host.add
    dsimp only
    split
    · exact uses_writeGit
    · rfl
  | update =>
    unfold Host.next Host.update
    dsimp only
    split
    · exact uses_writeGit
    · rfl
  | remove =>
    unfold Host.next Host.remove
    dsimp only
    split
    · exact uses_writeGit
    · rfl
  | secret =>
    unfold Host.next Host.secret
    dsimp only
    split
    · exact uses_save
    · rfl
  | fetch name ago refuses => exact absurd rfl (other name ago refuses)
  | other => rfl

/-- Step lemma: Git is given a credential of the place where it is run. -/
theorem Confined.next (confined : w.Confined) (held : w.Held) (upToDate : w.UpToDate a) : (w.next a).Confined := by
  by_cases fetches : ∃ name ago refuses, a = .fetch name ago refuses
  · obtain ⟨name, ago, refuses, rfl⟩ := fetches
    rw [Host.next]
    rcases fetch_cases w name ago refuses with same | ⟨repo, uses, read, same, given⟩
    · rw [same]
      exact confined
    · rw [same]
      intro u mem
      rcases List.mem_append.mp mem with older | new
      · exact confined u older
      · obtain ⟨url, r, last, found⟩ := given u new
        have current : w.stored.git.repos.find name = some repo := upToDate ▸ read
        rw [← Keyed.Table.key_of_find current] at current
        obtain ⟨_, _, anchor, belong⟩ := held repo.name r last
        rw [anchor_of_find current] at anchor
        cases anchor
        rw [url]
        exact (belong u.item found).destination
  · have same : (w.next a).uses = w.uses := uses_next fun name ago refuses is => fetches ⟨name, ago, refuses, is⟩
    unfold Confined
    rw [same]
    exact confined

/-- Run lemma. -/
theorem Confined.run (confined : w.Confined) (held : w.Held) (upToDate : w.AllUpToDate actions) :
    (w.run actions).Confined := by
  induction actions generalizing w with
  | nil => exact confined
  | cons a rest ih => exact ih (confined.next held upToDate.1) (held.next upToDate.1) upToDate.2

theorem held_start : start.Held := by
  intro name r found
  cases found

theorem confined_start : start.Confined := by
  intro u mem
  cases mem

/-- The processes take turns as whole commands: each reads the journal as it is when it acts. -/
def Whole : Action → Prop
  | .fetch _ ago _ | .update _ ago _ _ => ago = 0
  | _ => True

/-- Whole commands, in any order, are up to date. -/
theorem upToDate_of_whole (whole : ∀ a ∈ actions, Whole a) : w.AllUpToDate actions := by
  induction actions generalizing w with
  | nil => trivial
  | cons a rest ih =>
    refine ⟨?_, ih fun b mem => whole b (List.mem_cons_of_mem a mem)⟩
    have here := whole a List.mem_cons_self
    cases a with
    | fetch name ago refuses =>
      cases here
      rfl
    | update p ago verified nowMs =>
      cases here
      exact fun _ _ known => known
    | _ => trivial

end Host

/-! ## Where credentials go -/

open Host

/-- In a run whose actions are all up to date, Git is given a credential with URLs of the destination that the
credential was saved for, and of no other. -/
theorem credentials_confined (upToDate : start.AllUpToDate actions) : (start.run actions).Confined :=
  confined_start.run held_start upToDate

/-- Flags with these values. -/
def flags (values : List (String × String)) : Parsed :=
  ⟨fun flag => (values.find? fun v => v.1 = flag).map (·.2), fun _ => [], fun _ => false⟩

def addAt (url : String) (rest : List (String × String)) (nowMs : Nat) : Action :=
  .add (flags ([("name", "a"), ("url", url), ("container-port", "80")] ++ rest)) none (.ok ()) (.ok ⟨1⟩) nowMs

def saveCredential (nowMs : Nat) : Action :=
  .secret (flags [("name", "a"), ("kind", "credential")]) [1] (fun _ => none) nowMs true true

theorem credentials_confined_used :
    let w := start.run [addAt "https://a/x" [("username", "u")] 1, saveCredential 2, .fetch "a" 0 fun _ => none]
    w.Confined ∧ w.uses.length = 1 :=
  ⟨credentials_confined (upToDate_of_whole (by simp [Whole, addAt, saveCredential])), by decide⟩

/-- A registration without a saved credential is moved in two steps, while Git is about to be run on it as it
was. -/
def moved : List Action :=
  [addAt "https://a/x" [("username", "u")] 1, addAt "https://a/x" [] 2, addAt "https://b/x" [("username", "u")] 3,
    saveCredential 4, .fetch "a" 3 fun _ => none]

/-- The credential that was saved for `b` is given to Git with a URL of `a`. -/
theorem credential_leaves : ¬ (start.run moved).Confined := by
  have leaves : ∃ u ∈ (start.run moved).uses, destination u.item.savedFor ≠ destination u.url := by decide
  obtain ⟨u, mem, other⟩ := leaves
  exact fun confined => other (confined u mem)

end Harpoon.Git
