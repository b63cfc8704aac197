import Harpoon.Laws.GitCodec
import Harpoon.Control.Operations

/-!
# What the registry's writers record

`repo-add`, `repo-update`, the removals, the poller and a deployment from Git. Every repository on record passed
`RepoRec.validate`, so whatever a writer takes from one passes the decoder.
-/

namespace Harpoon.Git

open Deploy Wire Journal

/-- The journal says `s`, and the record is one that a command writes then. -/
inductive Writes (s : GitState) : GitRecord → Prop
  | added (p : Parsed) (early : Option Registry) (verified : Except String Unit) (state : Registry)
      (fresh : Except String ApplicationId) (nowMs : Nat) (x : RepoRec) (read : state.git = s)
      (add : repoAdd p early verified state fresh nowMs = .ok x) : Writes s (.repo x)
  | updated (p : Parsed) (seen : Registry) (verified : Except String Unit) (state : Registry) (nowMs : Nat) (x : RepoRec)
      (read : state.git = s) (update : repoUpdate p seen verified state nowMs = .ok x) : Writes s (.repo x)
  | removed (p : Parsed) (capability : Except Fail Unit) (seen state : Registry) (backup : Except Fail Unit) (nowMs : Nat)
      (application : Bool) (y : RemovedRec) (read : state.git = s)
      (remove : remove p capability seen state backup nowMs application = .ok y) : Writes s (.removed y)
  -- The poller, after it asked the repository for its branches.
  | seen (repo : RepoRec) (refName commit : String) (nowMs : Nat) (live : repo ∈ s.repos.rows)
      (full : isCommit commit = true) : Writes s (.seen ⟨repo.name, refName, commit, nowMs⟩)
  -- `run_source`, after the checkout. An event names its source and its delivery.
  | source (repo : RepoRec) (deployment : DeploymentId) (selector : SelectorKind) (requested commit trigger : String)
      (delivery : Option String) (nowMs : Nat) (live : repo ∈ s.repos.rows) (full : isCommit commit = true)
      (source : Control.checkSource trigger = .ok ()) (identity : ∀ d, delivery = some d → Control.checkDelivery d = .ok ()) :
      Writes s (.source ⟨deployment, repo.name, repo.url, selector, requested, commit, trigger, delivery, nowMs⟩)

/-- What the journal can say: its records were written by the commands, and applied as they were written or as
they were read back. -/
inductive Registered : GitState → Prop
  | new : Registered .new
  | next {s s' : GitState} {r : GitRecord} (registered : Registered s) (writes : Writes s r) (timely : r.Timely)
      (applied : s.apply r = .ok s' ∨ s.apply r.readBack = .ok s') : Registered s'

variable {s s' : GitState} {r : GitRecord} {x : RepoRec}

/-! ## The repositories on record -/

/-- Every repository on record passes its checks. -/
def Valid (s : GitState) : Prop := ∀ x ∈ s.repos.rows, ∃ kind, x.validate = .ok kind

theorem mapError_ok {ε δ α : Type} {e : Except ε α} {f : ε → δ} {a : α} (passed : e.mapError f = .ok a) : e = .ok a := by
  cases e with
  | error _ => cases passed
  | ok _ => exact congrArg Except.ok (Except.ok.inj passed)

theorem repoAdd_valid {p : Parsed} {early : Option Registry} {verified : Except String Unit} {state : Registry}
    {fresh : Except String ApplicationId} {nowMs : Nat} (added : repoAdd p early verified state fresh nowMs = .ok x) :
    ∃ kind, x.validate = .ok kind := by
  obtain ⟨a, _, added⟩ := bind_ok added
  obtain ⟨_, _, added⟩ := bind_ok added
  obtain ⟨_, _, added⟩ := bind_ok added
  obtain ⟨_, _, added⟩ := bind_ok added
  obtain ⟨app, _, added⟩ := bind_ok added
  obtain ⟨port, _, added⟩ := bind_ok added
  obtain ⟨kind, valid, added⟩ := bind_ok added
  obtain ⟨_, _, added⟩ := bind_ok added
  cases added
  exact ⟨kind, mapError_ok valid⟩

/-- The time of a registration is not among what is checked. -/
theorem repoUpdate_valid {p : Parsed} {seen state : Registry} {verified : Except String Unit} {nowMs : Nat}
    (updated : repoUpdate p seen verified state nowMs = .ok x) : ∃ kind, x.validate = .ok kind := by
  obtain ⟨name, _, updated⟩ := bind_ok updated
  obtain ⟨_, _, updated⟩ := bind_ok updated
  obtain ⟨current, _, updated⟩ := bind_ok updated
  obtain ⟨_, _, updated⟩ := bind_ok updated
  obtain ⟨r, _, updated⟩ := bind_ok updated
  obtain ⟨kind, valid, updated⟩ := bind_ok updated
  obtain ⟨_, _, updated⟩ := bind_ok updated
  obtain ⟨_, _, updated⟩ := bind_ok updated
  obtain ⟨_, _, updated⟩ := bind_ok updated
  obtain ⟨_, _, updated⟩ := bind_ok updated
  cases updated
  exact ⟨kind, mapError_ok valid⟩

theorem validate_name {kind : UrlKind} (valid : x.validate = .ok kind) : checkName x.name = .ok () := by
  obtain ⟨_, name, _⟩ := bind_ok valid
  exact name

theorem validate_url {kind : UrlKind} (valid : x.validate = .ok kind) : ∃ kind, validateUrl x.url = .ok kind := by
  obtain ⟨_, _, valid⟩ := bind_ok valid
  obtain ⟨kind, url, _⟩ := bind_ok valid
  exact ⟨kind, url⟩

/-- What a command writes passes the decoder's checks. -/
theorem Writes.reads (valid : Valid s) (writes : Writes s r) : r.Reads := by
  cases writes with
  | added p early verified state fresh nowMs x read add => exact repoAdd_valid add
  | updated p seen verified state nowMs x read update => exact repoUpdate_valid update
  | removed p capability seen state backup nowMs application y read remove =>
    obtain ⟨live, found, url⟩ := remove_ok remove
    rw [read] at found
    obtain ⟨_, passed⟩ := valid live (Keyed.Table.mem_of_find found)
    have name : checkName y.name = .ok () := Keyed.Table.key_of_find found ▸ validate_name passed
    obtain ⟨kind, known⟩ := validate_url passed
    show y.validate = .ok ()
    rw [RemovedRec.validate, name, url, known]
    rfl
  | seen repo refName commit nowMs live full =>
    obtain ⟨_, passed⟩ := valid repo live
    exact ⟨validate_name passed, full⟩
  | source repo deployment selector requested commit trigger delivery nowMs live full source identity =>
    obtain ⟨_, passed⟩ := valid repo live
    exact ⟨validate_name passed, full, validate_url passed, (Control.source_token source).plain (by decide),
      fun d some => Control.plain_delivery (identity d some)⟩

/-- Step lemma. -/
theorem Valid.apply (valid : Valid s) (reads : r.Reads) (applied : s.apply r = .ok s') : Valid s' := by
  cases r with
  | repo x =>
    obtain ⟨_, rfl⟩ := GitState.applyRepo_ok applied
    intro o mem
    rcases Keyed.Table.mem_insert mem with rfl | mem
    · exact reads
    · exact valid o mem
  | seen z => cases GitState.applySeen_ok applied; exact valid
  | source z => cases GitState.applySource_ok applied; exact valid
  | removed y =>
    obtain ⟨_, rfl⟩ := GitState.applyRemoved_ok applied
    exact fun o mem => valid o (Keyed.Table.mem_remove mem)

theorem GitRecord.Reads.readBack (reads : r.Reads) : r.readBack.Reads := by
  cases r with
  | source z =>
    obtain ⟨name, commit, url, trigger, delivery⟩ := reads
    refine ⟨name, commit, url, trigger, fun d some => delivery d ?_⟩
    exact (Option.filter_eq_some_iff.mp some).1
  | repo _ => exact reads
  | removed _ => exact reads
  | seen _ => exact reads

theorem Registered.valid (registered : Registered s) : Valid s := by
  induction registered with
  | new => exact fun _ mem => nomatch mem
  | next _ writes _ applied valid =>
    have reads := writes.reads valid
    exact applied.elim (valid.apply reads) (valid.apply reads.readBack)

/-! ## Records and their lines -/

/-- A record is read back as it was, unless it is a source with the delivery identity `-`. -/
theorem readBack_eq_iff : r.readBack = r ↔ ∀ z, r = .source z → z.delivery ≠ some "-" := by
  cases r with
  | source z =>
    have kept : z.delivery.filter (fun d => d ≠ "-") = z.delivery ↔ z.delivery ≠ some "-" := by
      cases z.delivery with
      | none => simp
      | some d => by_cases same : d = "-" <;> simp [Option.filter, same]
    constructor
    · intro same z' here
      cases here
      exact kept.mp (congrArg SourceRec.delivery (GitRecord.source.inj same))
    · intro named
      rw [GitRecord.readBack, kept.mpr (named z rfl)]
  | repo _ => simp [GitRecord.readBack]
  | removed _ => simp [GitRecord.readBack]
  | seen _ => simp [GitRecord.readBack]

/-- The line of a record that a command writes gives the record again, and a state that applies the same way,
exactly if the record has no delivery identity `-`. -/
theorem git_records_survive {β : Type} {others : List String → Except String β} (registered : Registered s)
    (writes : Writes s r) (timely : r.Timely) :
    (∃ r', decodeLine (decodeOther others) (encode r) = .ok (.other (.inl r')) ∧ r' = r ∧
      ∀ g : GitState, g.apply r' = g.apply r) ↔ ∀ z, r = .source z → z.delivery ≠ some "-" := by
  have line : decodeLine (decodeOther others) (encode r) = .ok (.other (.inl r.readBack)) :=
    decodeLine_encode (writes.reads registered.valid) timely
  rw [← readBack_eq_iff, line]
  constructor
  · rintro ⟨r', read, same, _⟩
    cases read
    exact same
  · exact fun same => ⟨r.readBack, rfl, same, fun g => congrArg g.apply same⟩

/-! A repository, and an event whose source calls its delivery `-`. -/

namespace Shop

def repo : RepoRec :=
  { name := "shop", url := "https://a/x", username := none, cred := .none, knownHost := none, webhook := none, app := ⟨1⟩
    project := none, environment := none, branch := "main", filters := [], containerPort := 80, dockerfile := none
    context := none, target := none, healthPath := none, atMs := 5 }

def state : GitState := { GitState.new with repos := Keyed.Table.empty.insert repo }

theorem writes : Writes .new (.repo repo) := by
  refine .added (flags [("name", "shop"), ("url", "https://a/x"), ("container-port", "80")]) none (.ok ())
    Host.start.stored (.ok ⟨1⟩) 5 repo rfl ?_
  have added : (repoAdd (flags [("name", "shop"), ("url", "https://a/x"), ("container-port", "80")]) none (.ok ())
      Host.start.stored (.ok ⟨1⟩) 5).toOption = some repo := by decide
  exact ok_of_toOption added

theorem registered : Registered state := .next .new writes (show 5 ≤ maxNumber by decide) (.inl rfl)

def commit : String := String.ofList (List.replicate 40 'a')

def event (delivery : String) : SourceRec := ⟨⟨2⟩, "shop", "https://a/x", .commit, "-", commit, "ci", some delivery, 6⟩

theorem writesEvent {delivery : String} (accepted : Control.checkDelivery delivery = .ok ()) :
    Writes state (.source (event delivery)) := by
  refine .source repo ⟨2⟩ .commit "-" commit "ci" (some delivery) 6 ?_ (by decide) (by rfl) ?_
  · exact List.mem_singleton.mpr rfl
  · intro d same
    cases same
    exact accepted

/-- Of the other kinds of records, none. -/
def others : List String → Except String Unit := fun _ => .error "not a record"

end Shop

theorem git_records_survive_named :
    (∃ r', decodeLine (decodeOther Shop.others) (encode (.source (Shop.event "ci:7"))) = .ok (.other (.inl r')) ∧
      r' = .source (Shop.event "ci:7") ∧ ∀ g : GitState, g.apply r' = g.apply (.source (Shop.event "ci:7"))) ↔
      ∀ z, GitRecord.source (Shop.event "ci:7") = .source z → z.delivery ≠ some "-" :=
  git_records_survive Shop.registered (Shop.writesEvent (ok_of_toOption (by decide)))
    (show 6 ≤ maxNumber by decide)

/-- The source of an event with the delivery identity `-` is read back as that of a deployment without an event. -/
theorem delivery_lost :
    ∃ s r, Registered s ∧ Writes s r ∧ r.Timely ∧
      ¬ ∃ r', decodeLine (decodeOther Shop.others) (encode r) = .ok (.other (.inl r')) ∧ r' = r ∧
        ∀ g : GitState, g.apply r' = g.apply r := by
  have writes := Shop.writesEvent (ok_of_toOption (e := Control.checkDelivery "-") (by decide))
  refine ⟨_, _, Shop.registered, writes, show 6 ≤ maxNumber by decide, ?_⟩
  rintro ⟨r', read, same, _⟩
  have line : decodeLine (decodeOther Shop.others) (encode (.source (Shop.event "-"))) =
      .ok (.other (.inl (GitRecord.source (Shop.event "-")).readBack)) :=
    decodeLine_encode (writes.reads Shop.registered.valid) (show 6 ≤ maxNumber by decide)
  cases line.symm.trans read
  exact readBack_eq_iff.mp same (Shop.event "-") rfl rfl

end Harpoon.Git
