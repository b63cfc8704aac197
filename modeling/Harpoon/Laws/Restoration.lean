import Harpoon.Laws.Rehearsal

/-!
# The bounded restoration

What the one attempt at restoring the previous release may ask of Docker: one container is made, on the pinned port and
only while the port's lease is the previous release's or was taken for it, and that one is started; nothing else is
changed. It ends healthy only when the started container passed the previous release's own check.
-/

namespace Harpoon.Docker

open Interact Deploy Deploy.Ports Process

/-! ## The rule -/

/-- Nothing of Docker's was changed. -/
def Still (t : Past) : Prop := ∀ e ∈ t, ∀ op, e.op = .host op → HostOp.IsQuiet op

/-- The port's unreleased lease is the deployment's, in a ledger that began as `l`. -/
structure HeldBy (l : Ledger) (t : Past) (port : UInt16) (d : DeploymentId) : Prop where
  held : ∃ e ∈ (acked l t).entries, e.key = StepIo.leaseKey port ∧ e.isReleased = false ∧ e.deployment = d
  only : l.Sound → ∀ e ∈ (acked l t).entries, e.key = StepIo.leaseKey port → e.isReleased = false → e.deployment = d

/-- The port may be used: its lease is the previous release's, or nobody held it and it was leased first. -/
def Entitled (l : Ledger) (previous : PreviousRelease) (app : ApplicationId) (dep : DeploymentId) (port : UInt16)
    (t : Past) : Prop :=
  (∃ d ∈ leaseOwners previous, HeldBy l t port d) ∨
    ¬ Leased l port ∧ HeldBy l t port dep ∧
      (∃ atMs, Acked t (.intent (StepIo.leaseKey port) app dep .removeOnFailure atMs)) ∧
      Receipted dep t (StepIo.leaseKey port) (toString port)

/-- One container was made, and nothing else of Docker's was changed. -/
def MadeOnly (id : String) (t : Past) : Prop :=
  ∃ later name spec left before, Still later ∧ Still before ∧
    t = later ++ ⟨.host (.api (.createContainer name spec) left), .ok (.created id)⟩ :: before

/-- What the restoration may ask. -/
def Restoring (l : Ledger) (previous : PreviousRelease) (app : ApplicationId) (dep : DeploymentId) (t : Past) :
    StepOp → Prop
  | .engine .nowMs => True
  | .engine (.record r) => r.deployment = dep
  | .engine _ => False
  | .host (.api (.createContainer name spec) _) =>
    Still t ∧ name = restoredContainerName dep ∧
      ∃ c, previous.config = some c ∧ spec.hostPort = c.hostPort ∧ Entitled l previous app dep c.hostPort t
  | .host (.api (.startContainer id) _) => MadeOnly id t
  | .host op => op.IsQuiet

/-- The container that was made and started passed the release's own check. -/
def Passed (self : DockerBackend) (b : Budget) (c : ReleaseConfig) (id : String) (t : Past) : Prop :=
  ∃ later check w before, t = later ++ ⟨.host (.runHealth check), w⟩ :: before ∧
    (∃ name spec, Answered before (.createContainer name spec) (.created id)) ∧ Answered before (.startContainer id) () ∧
    check.containerId = id ∧ check.port = c.hostPort ∧ check.spec = checkedSpec b c.health ∧
    (evidenceOf check self.simulated w).isHealthy = true

section

variable {l : Ledger} {previous : PreviousRelease} {app : ApplicationId} {dep : DeploymentId} {t t' : Past}
  {port : UInt16} {d : DeploymentId} {self : DockerBackend} {st : State} {io : StepIo} {b : Budget} {c : ReleaseConfig}
  {fail : StepError → State → StepIo → Past → Prop}

theorem restoring_reads : LetsRead (Restoring l previous app dep) := by
  refine ⟨fun _ => trivial, fun t op quiet => ?_⟩
  cases op with
  | api op left =>
    cases op with
    | createContainer _ _ | startContainer _ => exact quiet.elim
    | _ => exact quiet
  | _ => exact quiet

/-! ## What stays -/

theorem Still.grows (still : Still t) (grows : Grows t t') : Still t' := by
  obtain ⟨k, rfl, quiet⟩ := grows
  intro e mem op asked
  rcases List.mem_append.mp mem with mem | mem
  · have quiet := quiet e mem
    rwa [asked] at quiet
  · exact still e mem op asked

theorem Still.cons {e : Event StepSig} (still : Still t) (own : ∀ op, e.op = .host op → HostOp.IsQuiet op) :
    Still (e :: t) := by
  intro e' mem op asked
  rcases List.mem_cons.mp mem with rfl | mem
  · exact own op asked
  · exact still e' mem op asked

theorem Still.record {r : LedgerRecord} {w : Written} (still : Still t) : Still (⟨.engine (.record r), w⟩ :: t) :=
  still.cons fun op asked => by cases asked

theorem Still.start : Still [] := fun _ mem => absurd mem List.not_mem_nil

theorem Still.append {k : Past} (still : Still t) (later : Still k) : Still (k ++ t) := by
  intro e mem op asked
  rcases List.mem_append.mp mem with mem | mem
  · exact later e mem op asked
  · exact still e mem op asked

theorem MadeOnly.append {id : String} {k : Past} (made : MadeOnly id t) (still : Still k) : MadeOnly id (k ++ t) := by
  obtain ⟨later, name, spec, left, before, still_later, still_before, rfl⟩ := made
  exact ⟨k ++ later, name, spec, left, before, still_later.append still, still_before, (List.append_assoc ..).symm⟩

theorem MadeOnly.grows {id : String} (made : MadeOnly id t) (grows : Grows t t') : MadeOnly id t' := by
  obtain ⟨k, rfl, quiet⟩ := grows
  refine made.append fun e mem op asked => ?_
  have quiet := quiet e mem
  rwa [asked] at quiet

theorem MadeOnly.answered {id : String} (made : MadeOnly id t) :
    ∃ name spec, Answered t (.createContainer name spec) (.created id) := by
  obtain ⟨later, name, spec, left, before, -, -, rfl⟩ := made
  exact ⟨name, spec, left, List.mem_append_right _ List.mem_cons_self⟩

/-- In a ledger that every program makes, a port has one unreleased lease. -/
theorem HeldBy.of_mem {e : Entry} (mem : e ∈ (acked l t).entries) (key : e.key = StepIo.leaseKey port)
    (unreleased : e.isReleased = false) (owner : e.deployment = d) : HeldBy l t port d where
  held := ⟨e, mem, key, unreleased, owner⟩
  only := fun sound e' mem' key' unreleased' => by
    have one := (sound_acked sound t).lease e mem e' mem' (by rw [key]; rfl) (key'.trans key.symm) unreleased unreleased'
    rw [one, owner]

/-- What the restoration stands on: the ledger that is held is the acknowledged one. -/
structure On (l : Ledger) (app : ApplicationId) (dep : DeploymentId) (io : StepIo) (t : Past) : Prop where
  ledger : io.ledger = acked l t
  ofApp : io.app = app
  ofDep : io.dep = dep

theorem On.grows {io' : StepIo} (on : On l app dep io t) (grows : Grows t t') (same : Same io io') :
    On l app dep io' t' where
  ledger := same.ledger.trans (on.ledger.trans grows.ledgerOf.symm)
  ofApp := same.app.trans on.ofApp
  ofDep := same.dep.trans on.ofDep

theorem On.host {op : HostOp} {answer : op.Answer} (on : On l app dep io t) :
    On l app dep io (⟨.host op, answer⟩ :: t) :=
  ⟨on.ledger, on.ofApp, on.ofDep⟩

theorem On.record {l' : Ledger} {r : LedgerRecord} (on : On l app dep io t) (applied : Ledger.Applied io.ledger r l') :
    On l app dep { io with ledger := l' } (⟨.engine (.record r), .acknowledged⟩ :: t) where
  ledger := (acked_record (on.ledger ▸ applied)).symm
  ofApp := on.ofApp
  ofDep := on.ofDep

/-! ## Records -/

/-- The past after a record was acknowledged. -/
def written (t : Past) (atMs : Nat) (r : LedgerRecord) : Past :=
  ⟨.engine (.record r), .acknowledged⟩ :: ⟨.engine .nowMs, atMs⟩ :: t

theorem grows_now (t : Past) (atMs : Nat) : Grows t (⟨.engine .nowMs, atMs⟩ :: t) := .one trivial

theorem On.written {l' : Ledger} {r : LedgerRecord} (on : On l app dep io t) (atMs : Nat)
    (applied : Ledger.Applied io.ledger r l') : On l app dep { io with ledger := l' } (written t atMs r) :=
  (on.grows (grows_now t atMs) (.refl io)).record applied

theorem Still.written (still : Still t) (atMs : Nat) (r : LedgerRecord) : Still (written t atMs r) :=
  (still.grows (grows_now t atMs)).record

theorem subset_written (t : Past) (atMs : Nat) (r : LedgerRecord) : t ⊆ written t atMs r :=
  fun _ mem => List.mem_cons_of_mem _ (List.mem_cons_of_mem _ mem)

theorem written_acked (t : Past) (atMs : Nat) (r : LedgerRecord) : Acked (written t atMs r) r := List.mem_cons_self

/-- One record of the deployment's own. However it fails, nothing follows from it. -/
theorem writeNow_restores {fail : StepError → StepIo → Past → Prop} {post : Unit → StepIo → Past → Prop}
    {r : Nat → StepIo → LedgerRecord} (own : ∀ atMs, (r atMs io).deployment = dep)
    (ends : ∀ atMs l', Ledger.Applied io.ledger (r atMs io) l' →
      post () { io with ledger := l' } (written t atMs (r atMs io)))
    (fails : ∀ e io t, fail e io t) :
    Meets onPast (fun t op => Restoring l previous app dep t (.engine op))
      (do let atMs ← now; let io ← get; StepIo.write (r atMs io)) post fail io t := by
  refine meets_bind.mpr ⟨trivial, fun atMs => meets_bind.mpr (meets_get.mpr (meets_bind.mpr (meets_get.mpr ?_)))⟩
  rcases io.ledger.apply_spec (r atMs io) with ⟨x, refused⟩ | ⟨l', accepted, applied⟩
  · rw [refused]
    exact fails _ _ _
  · rw [accepted]
    refine meets_bind.mpr ⟨own atMs, fun answer => ?_⟩
    cases answer with
    | acknowledged => exact ends atMs l' applied
    | failed e stored => exact fails _ _ _

theorem intend_restores {key : ResourceKey} {disposition : Disposition} {fail : StepError → StepIo → Past → Prop}
    {post : Intent → StepIo → Past → Prop} (on : On l app dep io t)
    (ends : ∀ atMs l', Ledger.Applied io.ledger (.intent key app dep disposition atMs) l' →
      post ⟨key⟩ { io with ledger := l' } (written t atMs (.intent key app dep disposition atMs)))
    (fails : ∀ e io t, fail e io t) :
    Meets onPast (fun t op => Restoring l previous app dep t (.engine op)) (StepIo.intend key disposition) post fail
      io t := by
  obtain rfl := on.ofApp
  obtain rfl := on.ofDep
  have shape : StepIo.intend key disposition =
      (do let atMs ← now; let io ← get; StepIo.write (.intent key io.app io.dep disposition atMs)) >>= fun _ =>
        pure ⟨key⟩ := by
    simp only [StepIo.intend, bind_assoc]
  rw [shape]
  exact meets_bind.mpr (writeNow_restores (fun _ => rfl) ends fails)

theorem receipt_restores {key : ResourceKey} {id : String} {fail : StepError → StepIo → Past → Prop}
    {post : Unit → StepIo → Past → Prop} (on : On l app dep io t)
    (ends : ∀ atMs l', Ledger.Applied io.ledger (.receipt key dep id atMs) l' →
      post () { io with ledger := l' } (written t atMs (.receipt key dep id atMs)))
    (fails : ∀ e io t, fail e io t) :
    Meets onPast (fun t op => Restoring l previous app dep t (.engine op)) (StepIo.receipt ⟨key⟩ id) post fail io t := by
  obtain rfl := on.ofDep
  exact writeNow_restores (r := fun atMs io => .receipt key io.dep id atMs) (fun _ => rfl) ends fails

/-- A free port is leased to the deployment. -/
theorem leasePort_restores {lease : PortLease} {post : Unit → State → StepIo → Past → Prop} (on : On l app dep io t)
    (still : Still t) (free : ¬ Leased l lease.hostPort)
    (ends : ∀ io' t', Still t' → On l app dep io' t' → Entitled l previous app dep lease.hostPort t' → post () st io' t')
    (fails : ∀ e st io t, fail e st io t) :
    Serves (Restoring l previous app dep) (leasePort lease) post fail st io t := by
  refine serves_bind.mpr (serves_io (meets_attempt.mpr (meets_bind.mpr ?_)))
  refine intend_restores on (fun atMs l₁ applied₁ => meets_bind.mpr ?_) fun _ _ _ => fails _ _ _ _
  refine receipt_restores (on.written atMs applied₁) (fun atMs' l₂ applied₂ => ?_) fun _ _ _ => fails _ _ _ _
  have on₂ := (on.written atMs applied₁).written atMs' applied₂
  refine ends _ _ ((still.written _ _).written _ _) on₂ (.inr ⟨free, ?_, ⟨atMs, ?_⟩, ⟨atMs', written_acked _ _ _⟩⟩)
  · obtain ⟨e, found, _, _, unreleased⟩ := Ledger.find_receipted (Ledger.find_intended applied₁) applied₂
    have mem := Ledger.find_mem found
    rw [show l₂ = acked l _ from on₂.ledger] at mem
    exact .of_mem mem (Ledger.find_key found) (unreleased rfl) (congrArg Prod.fst (Ledger.find_ref found))
  · exact subset_written _ _ _ (written_acked _ _ _)

/-! ## What stays true of the lease -/

theorem HeldBy.mono (held : HeldBy l t port d) (kept : (acked l t).entries ⊆ (acked l t').entries) :
    HeldBy l t' port d := by
  obtain ⟨e, mem, key, unreleased, owner⟩ := held.held
  exact .of_mem (kept mem) key unreleased owner

theorem Entitled.mono (entitled : Entitled l previous app dep port t) (grows : t ⊆ t')
    (kept : (acked l t).entries ⊆ (acked l t').entries) : Entitled l previous app dep port t' := by
  rcases entitled with ⟨d, owner, held⟩ | ⟨free, held, intended, receipted⟩
  · exact .inl ⟨d, owner, held.mono kept⟩
  · exact .inr ⟨free, held.mono kept, intended.imp fun _ h => h.mono grows, receipted.mono grows⟩

theorem Entitled.grows (entitled : Entitled l previous app dep port t) (grows : Grows t t') :
    Entitled l previous app dep port t' :=
  entitled.mono grows.subset (by rw [acked, acked, grows.ledgerOf]; exact List.Subset.refl _)

/-- An intent adds an entry, and changes none. -/
theorem Entitled.intended {l' : Ledger} {key : ResourceKey} {disposition : Disposition} {atMs : Nat}
    (entitled : Entitled l previous app dep port t) (on : On l app dep io t)
    (applied : Ledger.Applied io.ledger (.intent key app dep disposition atMs) l') :
    Entitled l previous app dep port (written t atMs (.intent key app dep disposition atMs)) := by
  refine entitled.mono (subset_written _ _ _) ?_
  have before : io.ledger = acked l t := on.ledger
  have after : l' = acked l (written t atMs (.intent key app dep disposition atMs)) := (on.written atMs applied).ledger
  rw [← before, ← after]
  cases applied with
  | intent fresh free => exact List.subset_append_left _ _

/-! ## The container -/

theorem giveMarker_restores {name imageId : String} {post : List String → State → StepIo → Past → Prop}
    (ends : ∀ marker st' io' t', Grows t t' → Same io io' → Marked st st' → post marker st' io' t')
    (fails : ∀ e st io t, fail e st io t) :
    Serves (Restoring l previous app dep) (giveMarker self name imageId) post fail st io t := by
  unfold giveMarker
  cases self.cfg.attribution with
  | off => exact ends [] st io t (.refl t) (.refl io) ⟨_, _, rfl⟩
  | perContainer =>
    refine serves_bind.mpr (randomHex_reads.serves restoring_reads (fun value io' t' _ grows same => ?_)
      fun _ _ _ _ _ => fails _ _ _ _)
    exact serves_bind.mpr (serves_modify.mpr (ends _ _ io' t' grows same ⟨_, _, rfl⟩))

theorem recordCreated_restores {name : String} {spec : CreateSpec} {left : Nat} {outcome : CreateOutcome}
    {post : String → State → StepIo → Past → Prop} (on : On l app dep io t) (still : Still t)
    (ends : ∀ id io' t', MadeOnly id t' → post id st io' t')
    (fails : ∀ e st io t, fail e st io t) :
    Serves (Restoring l previous app dep) (recordCreated name ⟨⟨.container, name⟩⟩ outcome) post fail st io
      (⟨.host (.api (.createContainer name spec) left), .ok outcome⟩ :: t) := by
  cases outcome with
  | nameInUse why => exact fails _ _ _ _
  | created id =>
    refine serves_bind.mpr (serves_bind.mpr (serves_io (meets_attempt.mpr ?_)))
    refine receipt_restores on.host (fun atMs l' _ => ?_) fun _ _ _ => fails _ _ _ _
    have made : MadeOnly id (⟨.host (.api (.createContainer name spec) left), .ok (.created id)⟩ :: t) :=
      ⟨[], name, spec, left, t, Still.start, still, rfl⟩
    exact ends id _ _ (made.append (Still.start.written atMs (.receipt _ dep id atMs)))

/-- One container is made, on the pinned port. -/
theorem createContainer_restores {lease : PortLease} {disposition : Disposition}
    {post : String → State → StepIo → Past → Prop}
    (on : On l app dep io t) (still : Still t) (pinned : previous.config = some c) (leased : lease.hostPort = c.hostPort)
    (entitled : Entitled l previous app dep c.hostPort t)
    (ends : ∀ id st' io' t', Marked st st' → MadeOnly id t' → post id st' io' t')
    (fails : ∀ e st io t, fail e st io t) :
    Serves (Restoring l previous app dep) (createContainer self b (restoredContainerName dep) disposition lease) post
      fail st io t := by
  refine serves_bind.mpr (serves_app (serves_bind.mpr (serves_deployment (serves_bind.mpr (serves_get.mpr ?_)))))
  rw [on.ofApp, on.ofDep]
  refine serves_bind.mpr (serves_ofExcept (fun o _ => ?_) fun _ _ => fails _ _ _ _)
  refine serves_bind.mpr (checkImage_reads.serves restoring_reads (fun _ io₁ t₁ _ grows₁ same₁ => ?_)
    fun _ _ _ _ _ => fails _ _ _ _)
  refine serves_bind.mpr (serves_ofExcept (fun env _ => ?_) fun _ _ => fails _ _ _ _)
  refine serves_bind.mpr (giveMarker_restores (fun marker st₂ io₂ t₂ grows₂ same₂ marked => ?_) fails)
  have on₂ := (on.grows grows₁ same₁).grows grows₂ same₂
  refine serves_bind.mpr (serves_bind.mpr (serves_io (meets_attempt.mpr ?_)))
  refine intend_restores on₂ (fun atMs l₃ applied => ?_) fun _ _ _ => fails _ _ _ _
  have entitled₃ := ((entitled.grows grows₁).grows grows₂).intended on₂ applied
  have still₃ := ((still.grows grows₁).grows grows₂).written atMs
    (.intent ⟨.container, restoredContainerName dep⟩ app dep disposition atMs)
  refine serves_ofExcept (fun intent written => ?_) fun _ failed => by cases failed
  cases written
  refine serves_bind.mpr (call_obeys restoring_reads ?_ ?_ ?_ ?_)
  · intro io' t' left grows same
    exact ⟨still₃.grows grows, rfl, c, pinned, leased, entitled₃.grows grows⟩
  · intro outcome io₄ t₄ left grows₄ same₄
    exact recordCreated_restores ((on₂.written atMs applied).grows grows₄ same₄) (still₃.grows grows₄)
      (fun id io' t' made => ends id st₂ io' t' marked made) fails
  all_goals
    intros
    exact fails _ _ _ _

/-! ## The check -/

theorem Passed.grows {id : String} (passed : Passed self b c id t) (grows : Grows t t') : Passed self b c id t' := by
  obtain ⟨later, check, w, before, rfl, rest⟩ := passed
  obtain ⟨k, rfl, -⟩ := grows
  exact ⟨k ++ later, check, w, before, (List.append_assoc ..).symm, rest⟩

/-- A check is concluded well only on evidence that is healthy. -/
theorem concludeHealth_healthy {check : Check} {name what : String} {containerPort : UInt16} {w : Watched} :
    Reads (fun _ => (evidenceOf check self.simulated w).isHealthy = true)
      (concludeHealth self b check name containerPort what w) := by
  unfold concludeHealth
  dsimp only
  cases w.changed with
  | some why => exact .bind attachLogs_reads fun _ _ => .throw
  | none =>
    exact .ite (fun healthy => trustHealthy_reads.imp fun _ _ => healthy) fun _ =>
      .bind attachLogs_reads fun _ _ => .throw

theorem health_restores {id name what : String}
    {post : CheckEvidence → State → StepIo → Past → Prop}
    (restoring : st.restoringFrom = some (previous, c))
    (made : ∃ name spec, Answered t (.createContainer name spec) (.created id))
    (started : Answered t (.startContainer id) ()) (ends : ∀ ev io' t', Passed self b c id t' → post ev st io' t')
    (fails : ∀ e st io t, fail e st io t) :
    Serves (Restoring l previous app dep) (health self b id name c.hostPort what) post fail st io t := by
  refine serves_bind.mpr (serves_get.mpr ?_)
  rw [show healthOf self st = (c.health, c.containerPort) by rw [healthOf, restoring]]
  refine serves_bind.mpr (serves_ofExcept (fun marker _ => ?_) fun _ _ => fails _ _ _ _)
  refine serves_bind.mpr (require_reads.serves restoring_reads (fun _ io₁ t₁ _ grows₁ _ => ?_)
    fun _ _ _ _ _ => fails _ _ _ _)
  have inspects : HostOp.IsQuiet (.api (.containerInspect id) 0) := trivial
  refine serves_bind.mpr ((call_reads inspects).serves restoring_reads (fun found io₂ t₂ _ grows₂ _ => ?_)
    fun _ _ _ _ _ => fails _ _ _ _)
  refine serves_bind.mpr (serves_ofExcept (fun _ _ => ?_) fun _ _ => fails _ _ _ _)
  refine serves_bind.mpr (serves_host.mpr ⟨trivial, fun w => ?_⟩)
  refine concludeHealth_healthy.serves restoring_reads (fun ev io₃ t₃ healthy grows₃ _ => ?_)
    fun _ _ _ _ _ => fails _ _ _ _
  have before := (grows₁.trans grows₂).subset
  refine ends ev io₃ t₃ (Passed.grows ⟨[], _, w, t₂, rfl, ?_, started.mono before, rfl, rfl, rfl, healthy⟩ grows₃)
  exact made.imp fun _ made => made.imp fun _ made => made.mono before

/-! ## The attempt -/

/-- A healthy end is one with a container that passed. -/
abbrev Earned (self : DockerBackend) (b : Budget) (c : ReleaseConfig) (result : RestoreResult) (_ : State) (_ : StepIo)
    (t : Past) : Prop := result = .healthy → ∃ id, Passed self b c id t

/-- Reading for the verdict of a check that failed. -/
theorem judged_earned {e : StepError} {fallback : Reason} :
    Serves (Restoring l previous app dep) (judged e fallback) (Earned self b c) (fun _ _ _ _ => True) st io t := by
  have unhealthy : (RestoreResult.failed (if e.timedOut then .timeout else fallback)) ≠ .healthy := fun eq => by cases eq
  unfold judged
  split
  next => exact serves_throw.mpr trivial
  next =>
    refine serves_bind.mpr (pushLine_reads.serves restoring_reads ?_ ?_)
    · exact fun _ _ _ _ _ _ healthy => absurd healthy unhealthy
    · exact fun _ _ _ _ _ => trivial

theorem restoreVerdict_earned {id : String} {got : Except StepError CheckEvidence}
    (passed : ∀ ev, got = .ok ev → Passed self b c id t) :
    Serves (Restoring l previous app dep) (restoreVerdict got) (Earned self b c) (fun _ _ _ _ => True) st io t := by
  cases got with
  | ok ev =>
    refine serves_bind.mpr (pushLine_reads.serves restoring_reads (fun _ _ _ _ grows _ => ?_) fun _ _ _ _ _ => trivial)
    exact fun _ => ⟨id, (passed ev rfl).grows grows⟩
  | error e =>
    have unverified : RestoreResult.startedUnverified ≠ .healthy := fun eq => by cases eq
    unfold restoreVerdict
    dsimp only
    split
    next => exact serves_throw.mpr trivial
    next =>
      refine serves_bind.mpr (pushLine_reads.serves restoring_reads ?_ ?_)
      · exact fun _ _ _ _ _ _ healthy => absurd healthy unverified
      · exact fun _ _ _ _ _ => trivial

theorem startRestored_restores {id name : String} (restoring : st.restoringFrom = some (previous, c))
    (made : MadeOnly id t) :
    Serves (Restoring l previous app dep) (startRestored self b c name id) (Earned self b c) (fun _ _ _ _ => True)
      st io t := by
  refine serves_bind.mpr (request_obeys restoring_reads (fun io' t' left grows _ => made.grows grows) ?_ ?_)
  · intro answer io₁ t₁ left grows₁ same₁
    cases answer with
    | error e =>
      refine serves_bind.mpr (attachLogs_reads.serves restoring_reads (fun _ _ _ _ _ _ => ?_) fun _ _ _ _ _ => trivial)
      intro eq
      cases eq
    | ok value =>
      obtain ⟨made, spec, answered⟩ := (made.grows grows₁).answered
      refine serves_bind.mpr (serves_attempt.mpr
        (health_restores restoring ⟨made, spec, ?_⟩ ⟨left, List.mem_cons_self⟩ ?_ ?_))
      · exact answered.mono fun _ mem => List.mem_cons_of_mem _ mem
      · intro ev io₂ t₂ passed
        exact restoreVerdict_earned fun _ _ => passed
      · intro e st₂ io₂ t₂
        exact @restoreVerdict_earned _ _ _ _ _ _ _ _ _ _ id _ fun _ eq => by cases eq
  · intros
    trivial

theorem recreate_restores {lease : PortLease} (on : On l app dep io t) (still : Still t)
    (restoring : st.restoring = some previous) (pinned : previous.config = some c) (leased : lease.hostPort = c.hostPort)
    (entitled : Entitled l previous app dep c.hostPort t) :
    Serves (Restoring l previous app dep) (recreate self b c lease) (Earned self b c) (fun _ _ _ _ => True) st io t := by
  refine serves_bind.mpr (serves_deployment (serves_bind.mpr (serves_attempt.mpr ?_)))
  rw [on.ofDep]
  refine createContainer_restores on still pinned leased entitled (fun id st' io' t' marked made => ?_)
    fun e st' io' t' => judged_earned
  obtain ⟨markers, created, rfl⟩ := marked
  refine startRestored_restores ?_ made
  show st.restoring.bind _ = _
  rw [restoring, Option.bind_some, pinned, Option.map_some]

theorem leaseHolder_free {ledger : Ledger} (free : leaseHolder ledger port = none) : ¬ Leased ledger port := by
  rintro ⟨e, mem, key, unreleased⟩
  have none := List.find?_eq_none.mp (Option.map_eq_none_iff.mp free) e mem
  simp [key, unreleased, StepIo.leaseKey] at none

theorem restoreOn_restores (on : On l app dep io t) (still : Still t) (begun : acked l t = l)
    (restoring : st.restoring = some previous) (pinned : previous.config = some c) :
    Serves (Restoring l previous app dep) (restoreOn self b previous c (leaseHolder l c.hostPort)) (Earned self b c)
      (fun _ _ _ _ => True) st io t := by
  cases holder : leaseHolder l c.hostPort with
  | some d =>
    unfold restoreOn
    dsimp only
    cases owner : (leaseOwners previous).contains d with
    | true =>
      obtain ⟨e, found, rfl⟩ := Option.map_eq_some_iff.mp holder
      have holds := List.find?_some found
      simp only [Bool.and_eq_true, decide_eq_true_eq, Bool.not_eq_true'] at holds
      obtain ⟨⟨kind, named⟩, unreleased⟩ := holds
      have mem : e ∈ (acked l t).entries := by
        rw [begun]
        exact List.mem_of_find?_eq_some found
      have key : e.key = StepIo.leaseKey c.hostPort := by rw [StepIo.leaseKey, ← kind, ← named]
      exact recreate_restores on still restoring pinned rfl
        (.inl ⟨e.deployment, List.contains_iff_mem.mp owner, .of_mem mem key unreleased rfl⟩)
    | false =>
      refine serves_bind.mpr (pushLine_reads.serves restoring_reads (fun _ _ _ _ _ _ => ?_) fun _ _ _ _ _ => trivial)
      intro eq
      cases eq
  | none =>
    refine serves_bind.mpr (serves_attempt.mpr ?_)
    refine leasePort_restores on still (leaseHolder_free holder) (fun io' t' still on entitled => ?_)
      fun e st' io' t' => judged_earned
    exact recreate_restores on still restoring pinned rfl entitled

theorem restoreTrusted_restores (on : On l app dep io t) (still : Still t) (begun : acked l t = l)
    (restoring : st.restoring = some previous) (pinned : previous.config = some c) :
    Serves (Restoring l previous app dep) (restoreTrusted self b previous c app) (Earned self b c) (fun _ _ _ _ => True)
      st io t := by
  refine serves_bind.mpr (serves_ledger (serves_bind.mpr ?_))
  refine checkServingPort_reads.serves restoring_reads (fun untrusted io₁ t₁ _ grows same => ?_) fun _ _ _ _ _ => trivial
  have begun₁ : acked l t₁ = l := (grows.ledgerOf).trans begun
  rw [on.ledger, begun]
  split
  · refine serves_bind.mpr (pushLine_reads.serves restoring_reads (fun _ _ _ _ _ _ => ?_) fun _ _ _ _ _ => trivial)
    intro eq
    cases eq
  · exact restoreOn_restores (on.grows grows same) (still.grows grows) begun₁ restoring pinned

theorem imageProblem_earned {imageId : String} {owner : DeploymentId} {answer : Except ApiError (Option ImageInfo)}
    {note : Option String} {result : RestoreResult}
    (problem : imageProblem imageId app owner answer = some (note, result)) :
    result ≠ .healthy := by
  rintro rfl
  unfold imageProblem at problem
  split at problem
  · split at problem
    · cases problem
    · split at problem <;> cases problem
  · split at problem <;> cases problem
  · cases problem

theorem restoreInner_restores (on : On l app dep io t) (still : Still t) (begun : acked l t = l)
    (restoring : st.restoring = some previous) (pinned : previous.config = some c) :
    Serves (Restoring l previous app dep) (restoreInner self b previous c) (Earned self b c) (fun _ _ _ _ => True)
      st io t := by
  have inspects : HostOp.IsQuiet (.api (.imageInspect c.imageId) 0) := trivial
  refine serves_bind.mpr ((request_reads inspects).serves restoring_reads ?_ fun _ _ _ _ _ => trivial)
  intro answer io₁ t₁ _ grows same
  refine serves_bind.mpr (serves_app ?_)
  rw [(on.grows grows same).ofApp]
  split
  next note result problem =>
    refine serves_bind.mpr (pushLines_reads.serves restoring_reads (fun _ _ _ _ _ _ => ?_) fun _ _ _ _ _ => trivial)
    exact fun healthy => absurd healthy (imageProblem_earned problem)
  next =>
    exact restoreTrusted_restores (on.grows grows same) (still.grows grows) (grows.ledgerOf.trans begun) restoring pinned

/-- The attempt as a whole, from any state and ledger. -/
theorem restorePrevious_restores {budgetMs : Nat} :
    Serves (Restoring io.ledger previous io.app io.dep) (restorePrevious self previous budgetMs)
      (fun result _ _ t => result = .healthy → ∃ c id, previous.config = some c ∧ Passed self (.new budgetMs) c id t)
      (fun _ _ _ _ => True) st io [] := by
  unfold restorePrevious
  cases pinned : previous.config with
  | none => exact fun eq => by cases eq
  | some c =>
    refine serves_bind.mpr (serves_modify.mpr (serves_bind.mpr (serves_attempt.mpr ?_)))
    have on : On io.ledger io.app io.dep io [] := ⟨rfl, rfl, rfl⟩
    refine (restoreInner_restores on .start rfl rfl pinned).mono ?_ ?_
    · intro result st' io' t' earned
      refine serves_bind.mpr (serves_modify.mpr fun healthy => ?_)
      exact ⟨c, (earned healthy).imp fun _ passed => ⟨rfl, passed⟩⟩
    · intro e st' io' t' _
      exact serves_bind.mpr (serves_modify.mpr trivial)

end

/-! ## The requests -/

def StepOp.creates : StepOp → Bool
  | .host (.api (.createContainer _ _) _) => true
  | _ => false

def StepOp.starts : StepOp → Bool
  | .host (.api (.startContainer _) _) => true
  | _ => false

/-- What never comes after itself comes once at most. -/
theorem length_filter_le_one {α : Type} {p : α → Bool} {h : List α}
    (never : ∀ before e rest, h = before ++ e :: rest → p e = true → ∀ e' ∈ before, p e' = false) :
    (h.filter p).length ≤ 1 := by
  induction h with
  | nil => exact Nat.zero_le _
  | cons e h ih =>
    by_cases first : p e = true
    · have none : h.filter p = [] := by
        refine List.filter_eq_nil_iff.mpr fun e' mem again => ?_
        obtain ⟨before, rest, rfl⟩ := List.append_of_mem mem
        exact absurd first (by simp [never (e :: before) e' rest rfl again e List.mem_cons_self])
      rw [List.filter_cons_of_pos first, none]
      exact Nat.le_refl _
    · rw [List.filter_cons_of_neg first]
      refine ih fun before e' rest split again e'' mem => ?_
      exact never (e :: before) e' rest (congrArg (e :: ·) split) again e'' (List.mem_cons_of_mem _ mem)

section

variable {self : DockerBackend} {previous : PreviousRelease} {st : State} {io : StepIo} {t : Past}

theorem StepOp.creates_iff {op : StepOp} :
    op.creates = true ↔ ∃ name spec left, op = .host (.api (.createContainer name spec) left) := by
  unfold StepOp.creates
  split
  next name spec left => exact ⟨fun _ => ⟨name, spec, left, rfl⟩, fun _ => rfl⟩
  next other =>
    refine ⟨fun no => (by cases no), ?_⟩
    rintro ⟨name, spec, left, rfl⟩
    exact absurd rfl (other name spec left)

theorem StepOp.starts_iff {op : StepOp} : op.starts = true ↔ ∃ id left, op = .host (.api (.startContainer id) left) := by
  unfold StepOp.starts
  split
  next id left => exact ⟨fun _ => ⟨id, left, rfl⟩, fun _ => rfl⟩
  next other =>
    refine ⟨fun no => (by cases no), ?_⟩
    rintro ⟨id, left, rfl⟩
    exact absurd rfl (other id left)

theorem Still.no_create (still : Still t) {e : Event StepSig} (mem : e ∈ t) : StepOp.creates e.op = false := by
  refine Bool.eq_false_iff.mpr fun creates => ?_
  obtain ⟨name, spec, left, eq⟩ := StepOp.creates_iff.mp creates
  exact still e mem _ eq

theorem Still.no_start (still : Still t) {e : Event StepSig} (mem : e ∈ t) : StepOp.starts e.op = false := by
  refine Bool.eq_false_iff.mpr fun starts => ?_
  obtain ⟨id, left, eq⟩ := StepOp.starts_iff.mp starts
  exact still e mem _ eq

theorem MadeOnly.no_start {id : String} (made : MadeOnly id t) {e : Event StepSig} (mem : e ∈ t) :
    StepOp.starts e.op = false := by
  obtain ⟨later, name, spec, left, before, still_later, still_before, rfl⟩ := made
  rcases List.mem_append.mp mem with mem | mem
  · exact still_later.no_start mem
  · rcases List.mem_cons.mp mem with rfl | mem
    · rfl
    · exact still_before.no_start mem

/-- The one attempt at restoring a release, whatever is answered and wherever it is cut short: it makes one container at
most, on the pinned port, and starts that one at most once; the port's lease is then the previous release's, or it was
free and was leased first. It ends healthy only with a container that passed the release's own check. -/
theorem restoration_takes_no_port {budgetMs : Nat} {h : History StepSig}
    {left : Program StepSig (Except Empty (Except StepError RestoreResult × State) × StepIo)}
    (served : Program.Follows (serving (restorePrevious self previous budgetMs) st io) h left) :
    (∀ before e rest, h = before ++ e :: rest →
      Restoring io.ledger previous io.app io.dep before.reverse e.op) ∧
    (h.filter (StepOp.creates ·.op)).length ≤ 1 ∧ (h.filter (StepOp.starts ·.op)).length ≤ 1 ∧
    (∀ st' io', left = .done (.ok (.ok .healthy, st'), io') →
      ∃ c id, previous.config = some c ∧ Passed self (.new budgetMs) c id h.reverse) := by
  have ⟨ended, lawful⟩ := Program.Obeys.follows restorePrevious_restores served
  have rule : ∀ before e rest, h = before ++ e :: rest →
      Restoring io.ledger previous io.app io.dep before.reverse e.op := by
    rintro before e rest rfl
    have allowed := lawful.at
    rwa [seen_eq, List.append_nil] at allowed
  refine ⟨rule, length_filter_le_one ?_, length_filter_le_one ?_, ?_⟩
  · intro before e rest split creates e' mem
    obtain ⟨name, spec, left, eq⟩ := StepOp.creates_iff.mp creates
    have allowed := rule before e rest split
    rw [eq] at allowed
    exact allowed.1.no_create (List.mem_reverse.mpr mem)
  · intro before e rest split starts e' mem
    obtain ⟨id, left, eq⟩ := StepOp.starts_iff.mp starts
    have allowed := rule before e rest split
    rw [eq] at allowed
    exact MadeOnly.no_start allowed (List.mem_reverse.mpr mem)
  · rintro st' io' rfl
    rw [seen_eq, List.append_nil] at ended
    exact ended rfl

end

/-! ## A restoration

The previous release is recreated on the port that it still leases, and its container passes. -/

namespace Restored

open Removed (app dep backend)

/-- The deployment that built the previous release. -/
def older : DeploymentId := ⟨3#128⟩

def img : ImageInfo := ⟨"sha256:1", Labels.forDeployment app older, [], [], []⟩

def info : ContainerInfo := ⟨"c2", "hp-3", [], true, "sha256:1", "", 0, [⟨8080, "tcp", "127.0.0.1", 38000⟩]⟩

def pin : ReleaseConfig := { ReleaseConfig.simulated 38000 with imageId := "sha256:1" }

def previous : PreviousRelease := ⟨.fromDeployment older, older, some pin, none⟩

def lease : Entry := ⟨StepIo.leaseKey 38000, app, older, .removeOnFailure, some "38000", .created, 0, false, 0⟩

def io : StepIo := ⟨60000, .new .default .none, ⟨[lease]⟩, app, dep⟩

def run : History StepSig × (Except StepError RestoreResult × State) × StepIo :=
  played (steadily img info) (restorePrevious backend previous 60000) State.new io

end Restored

open Restored Removed in
theorem restoration_takes_no_port_healthy :
    (Restored.run.1.filter (StepOp.creates ·.op)).length = 1 ∧
      ∃ c id, Restored.previous.config = some c ∧ Passed backend (.new 60000) c id Restored.run.1.reverse :=
  have ended : Restored.run.2.1.1.toOption = some RestoreResult.healthy := by decide
  ⟨by decide, (restoration_takes_no_port (played_value ended)).2.2.2 _ _ rfl⟩

end Harpoon.Docker
