import Harpoon.Laws.Custody

/-!
# Conduct

Each operation of the Docker backend follows the rule of its custody. One lemma for each operation says
what it may rely on and what it leaves.
-/

namespace Harpoon.Docker

open Interact Deploy Deploy.Ports Process

variable {self : DockerBackend} {l : Ledger} {app : ApplicationId} {dep : DeploymentId} {plans : Prop} {st : State} {io : StepIo} {t : Past}
  {b : Budget} {α : Type}

/-! ## Asking the daemon -/

section

variable {rule : Past → StepOp → Prop} {what name : String} {op : ApiOp} {fail : StepError → State → StepIo → Past → Prop}

/-- Any request, whatever the rule. -/
theorem request_obeys {post : Except ApiError op.Value → State → StepIo → Past → Prop} (lets : LetsRead rule)
    (allowed : ∀ io' t' left, Grows t t' → Same io io' → rule t' (.host (.api op left)))
    (ends : ∀ answer io' t' left, Grows t t' → Same io io' → post answer st io' (⟨.host (.api op left), answer⟩ :: t'))
    (fails : ∀ e io' t', Grows t t' → Same io io' → fail e st io' t') : Serves rule (request b what op) post fail st io t := by
  refine serves_bind.mpr (left_reads.serves lets (fun left io' t' _ grows same => ?_) fails)
  exact ⟨allowed io' t' left grows same, fun answer => ends answer io' t' left grows same⟩

theorem call_obeys {post : op.Value → State → StepIo → Past → Prop} (lets : LetsRead rule)
    (allowed : ∀ io' t' left, Grows t t' → Same io io' → rule t' (.host (.api op left)))
    (ends : ∀ value io' t' left, Grows t t' → Same io io' → post value st io' (⟨.host (.api op left), .ok value⟩ :: t'))
    (fails : ∀ e io' t', Grows t t' → Same io io' → fail e st io' t')
    (refused : ∀ e io' t' left, Grows t t' → Same io io' →
      fail (apiErr name e) st io' (⟨.host (.api op left), .error e⟩ :: t')) :
    Serves rule (call b what name op) post fail st io t := by
  refine serves_bind.mpr (request_obeys lets allowed (fun answer io' t' left grows same => ?_) fails)
  refine serves_ofExcept ?_ ?_
  · rintro value rfl
    exact ends value io' t' left grows same
  · rintro e rfl
    exact refused e io' t' left grows same

end

theorem request_serves {what : String} {op : ApiOp} {post : Except ApiError op.Value → State → StepIo → Past → Prop}
    (fits : Fits l app dep plans st io t)
    (allowed : ∀ io' t' left, t ⊆ t' → Same io io' → Fits l app dep plans st io' t' → Allowed l app dep t' (.host (.api op left)))
    (ends : ∀ answer io' t', t ⊆ t' → Same io io' → Fits l app dep plans st io' t' →
      (∀ value, answer = .ok value → Answered t' op value) → post answer st io' t') :
    Serves (Allowed l app dep) (request b what op) post (Aborts l app dep plans) st io t := by
  have lets : ∀ io' t' left, Grows t t' → Same io io' → Allowed l app dep t' (.host (.api op left)) :=
    fun io' t' left grows same => allowed io' t' left grows.subset same (fits.grows grows same)
  refine request_obeys allowed_reads lets (fun answer io' t' left grows same => ?_) fun _ _ _ grows same _ =>
    fits.grows grows same
  refine ends answer io' _ (mem_grows grows) same (fits.grows grows same).host ?_
  rintro value rfl
  exact ⟨left, List.mem_cons_self⟩

theorem call_serves {what name : String} {op : ApiOp} {post : op.Value → State → StepIo → Past → Prop}
    (fits : Fits l app dep plans st io t)
    (allowed : ∀ io' t' left, t ⊆ t' → Same io io' → Fits l app dep plans st io' t' → Allowed l app dep t' (.host (.api op left)))
    (ends : ∀ value io' t', t ⊆ t' → Same io io' → Fits l app dep plans st io' t' → Answered t' op value →
      post value st io' t') :
    Serves (Allowed l app dep) (call b what name op) post (Aborts l app dep plans) st io t := by
  refine serves_bind.mpr (request_serves fits allowed fun answer io' t' grows same fits answered => ?_)
  refine serves_ofExcept ?_ ?_
  · rintro value rfl
    exact ends value io' t' grows same fits (answered value rfl)
  · rintro e rfl _
    exact fits

/-! ## Reading back and removing -/

/-- Docker, asked for the id of an image, reported it with the three labels. -/
def ImageReadBack (t : Past) (id : String) (app : ApplicationId) (dep : DeploymentId) : Prop :=
  ∃ img, Answered t (.imageInspect id) (some img) ∧ img.id = id ∧ hasLabels img.labels app dep = true

theorem judgeContainer_ok {req : RemoveRequest} {found : Option ContainerInfo} {info : ContainerInfo}
    (ok : judgeContainer req found = .ok info) :
    found = some info ∧ info.id = req.id ∧ info.name = req.name ∧ hasLabels info.labels req.app req.deployment = true := by
  cases found with
  | none => cases ok
  | some other =>
    unfold judgeContainer at ok
    dsimp only at ok
    by_cases id : other.id ≠ req.id
    · rw [if_pos id] at ok; cases ok
    rw [if_neg id] at ok
    by_cases name : other.name ≠ req.name
    · rw [if_pos name] at ok; cases ok
    rw [if_neg name] at ok
    cases labels : hasLabels other.labels req.app req.deployment with
    | false => rw [labels] at ok; cases ok
    | true =>
      rw [labels] at ok
      cases ok
      exact ⟨rfl, Decidable.not_not.mp id, Decidable.not_not.mp name, labels⟩

theorem judgeImage_ok {req : RemoveRequest} {found : Option ImageInfo} {img : ImageInfo} (ok : judgeImage req found = .ok img) :
    found = some img ∧ img.id = req.id ∧ hasLabels img.labels req.app req.deployment = true := by
  cases found with
  | none => cases ok
  | some other =>
    unfold judgeImage at ok
    dsimp only at ok
    by_cases id : other.id ≠ req.id
    · rw [if_pos id] at ok; cases ok
    rw [if_neg id] at ok
    cases labels : hasLabels other.labels req.app req.deployment with
    | false => rw [labels] at ok; cases ok
    | true =>
      rw [labels] at ok
      cases ok
      exact ⟨rfl, Decidable.not_not.mp id, labels⟩

theorem judgeContainer_absent {req : RemoveRequest} {found : Option ContainerInfo} (absent : judgeContainer req found = .absent) :
    found = none := by
  cases found with
  | none => rfl
  | some other =>
    unfold judgeContainer at absent
    dsimp only at absent
    split at absent
    · cases absent
    · split at absent
      · cases absent
      · split at absent <;> cases absent

/-- What a reading back of a container shows. -/
structure Shown (t : Past) (req : RemoveRequest) (verified : Verified ContainerInfo) : Prop where
  ok : ∀ info, verified = .ok info → ReadBack t req.id req.name req.app req.deployment
  absent : verified = .absent → Gone t req.id

/-- An invariant that only records can break. -/
structure Unwritten (J : StepIo → Past → Prop) : Prop where
  grows : ∀ {io io' t t'}, J io t → Grows t t' → Same io io' → J io' t'
  host : ∀ {io t} {op : HostOp} {answer : op.Answer}, J io t → J io (⟨.host op, answer⟩ :: t)

theorem Fits.unwritten : Unwritten (Fits l app dep plans st) := ⟨Fits.grows, Fits.host⟩

section Removing

variable {rule : Past → StepOp → Prop} {J : StepIo → Past → Prop} {what : String} {req : RemoveRequest}
  {fail : StepError → State → StepIo → Past → Prop}

/-- A call, with what only records can break. -/
theorem call_keeps {name : String} {op : ApiOp} {post : op.Value → State → StepIo → Past → Prop} (lets : LetsRead rule)
    (unwritten : Unwritten J) (start : J io t)
    (allowed : ∀ io' t' left, t ⊆ t' → J io' t' → rule t' (.host (.api op left)))
    (ends : ∀ value io' t', t ⊆ t' → J io' t' → Answered t' op value → post value st io' t')
    (fails : ∀ e io' t', t ⊆ t' → J io' t' → fail e st io' t') : Serves rule (call b what name op) post fail st io t := by
  refine call_obeys lets (fun io' t' left grows same => ?_) ?_ ?_ ?_
  · exact allowed io' t' left grows.subset (unwritten.grows start grows same)
  · intro value io' t' left grows same
    exact ends value io' _ (mem_grows grows) (unwritten.host (unwritten.grows start grows same)) ⟨left, List.mem_cons_self⟩
  · intro e io' t' grows same
    exact fails e io' t' grows.subset (unwritten.grows start grows same)
  · intro e io' t' left grows same
    exact fails _ io' _ (mem_grows grows) (unwritten.host (unwritten.grows start grows same))

theorem verifyContainer_keeps {post : Verified ContainerInfo → State → StepIo → Past → Prop} (lets : LetsRead rule)
    (unwritten : Unwritten J) (start : J io t)
    (ends : ∀ verified io' t', t ⊆ t' → J io' t' → Shown t' req verified → post verified st io' t')
    (fails : ∀ e io' t', t ⊆ t' → J io' t' → fail e st io' t') :
    Serves rule (verifyContainer b what req) post fail st io t := by
  refine serves_bind.mpr (call_keeps lets unwritten start (fun _ t' _ _ _ => lets.2 t' _ trivial) ?_ fails)
  intro found io' t' grows inv answered
  refine ends _ io' t' grows inv ⟨fun info ok => ?_, fun absent => ?_⟩
  · obtain ⟨rfl, shown⟩ := judgeContainer_ok ok
    exact ⟨info, answered, shown⟩
  · cases judgeContainer_absent absent
    exact .inl answered

/-- The rule lets the container be stopped and removed, once it was read back. -/
def LetsRemove (rule : Past → StepOp → Prop) (J : StepIo → Past → Prop) (req : RemoveRequest) (t : Past) : Prop :=
  ∀ io' t' left, t ⊆ t' → J io' t' → ReadBack t' req.id req.name req.app req.deployment →
    rule t' (.host (.api (.stopContainer req.id 10) left)) ∧ rule t' (.host (.api (.removeContainer req.id) left))

theorem LetsRemove.mono {t' : Past} (allowed : LetsRemove rule J req t) (grows : t ⊆ t') : LetsRemove rule J req t' :=
  fun io'' t'' left grows' => allowed io'' t'' left (subset_trans grows grows')

theorem stopFirst_keeps {running : Bool} {post : Bool → State → StepIo → Past → Prop} (lets : LetsRead rule)
    (unwritten : Unwritten J) (start : J io t) (read : ReadBack t req.id req.name req.app req.deployment)
    (allowed : LetsRemove rule J req t)
    (ends : ∀ there io' t', t ⊆ t' → J io' t' → (there = false → Gone t' req.id) → post there st io' t')
    (fails : ∀ e io' t', t ⊆ t' → J io' t' → fail e st io' t') :
    Serves rule (stopFirst b req running) post fail st io t := by
  cases running with
  | false => exact ends true io t (List.Subset.refl t) start fun no => nomatch no
  | true =>
    refine call_keeps lets unwritten start (fun io' t' left grows inv => ?_) ?_ fails
    · exact (allowed io' t' left grows inv (read.mono grows)).1
    · rintro there io' t' grows inv answered
      refine ends there io' t' grows inv ?_
      rintro rfl
      exact .inr (.inl answered)

theorem removeContainer_keeps {verified : Verified ContainerInfo} {post : RemoveResult → State → StepIo → Past → Prop}
    (lets : LetsRead rule) (unwritten : Unwritten J) (start : J io t) (shown : Shown t req verified)
    (allowed : LetsRemove rule J req t)
    (ends : ∀ result io' t', t ⊆ t' → J io' t' →
      (isGone (discardOutcome (.ok result)) = true → Gone t' req.id) → post result st io' t')
    (fails : ∀ e io' t', t ⊆ t' → J io' t' → fail e st io' t') :
    Serves rule (removeContainer b req verified) post fail st io t := by
  cases verified with
  | absent => exact ends _ io t (List.Subset.refl t) start fun _ => shown.absent rfl
  | refused why => exact ends _ io t (List.Subset.refl t) start fun gone => nomatch gone
  | ok info =>
    have read := shown.ok info rfl
    refine serves_bind.mpr (stopFirst_keeps lets unwritten start read allowed ?_ fails)
    intro there io₁ t₁ grows₁ inv₁ gone
    cases there with
    | false => exact ends _ io₁ t₁ grows₁ inv₁ fun _ => gone rfl
    | true =>
      refine serves_bind.mpr (call_keeps lets unwritten inv₁ (fun io' t' left grows inv => ?_) ?_ ?_)
      · exact (allowed io' t' left (subset_trans grows₁ grows) inv (read.mono (subset_trans grows₁ grows))).2
      · intro answer io₂ t₂ grows₂ inv₂ answered
        exact ends _ io₂ t₂ (subset_trans grows₁ grows₂) inv₂ fun _ => .inr (.inr ⟨answer, answered⟩)
      · intro e io₂ t₂ grows₂ inv₂
        exact fails e io₂ t₂ (subset_trans grows₁ grows₂) inv₂

theorem removeImage_keeps {found : Option ImageInfo} {post : RemoveResult → State → StepIo → Past → Prop}
    (lets : LetsRead rule) (unwritten : Unwritten J) (start : J io t) (answered : Answered t (.imageInspect req.id) found)
    (allowed : ∀ io' t' left, t ⊆ t' → J io' t' → ImageReadBack t' req.id req.app req.deployment →
      rule t' (.host (.api (.removeImage req.id) left)))
    (ends : ∀ result io' t', t ⊆ t' → J io' t' → post result st io' t')
    (fails : ∀ e io' t', t ⊆ t' → J io' t' → fail e st io' t') :
    Serves rule (removeImage b req (judgeImage req found)) post fail st io t := by
  cases judged : judgeImage req found with
  | absent => exact ends _ io t (List.Subset.refl t) start
  | refused why => exact ends _ io t (List.Subset.refl t) start
  | ok img =>
    obtain ⟨rfl, shown⟩ := judgeImage_ok judged
    refine serves_bind.mpr (call_keeps lets unwritten start (fun io' t' left grows inv => ?_) ?_ fails)
    · exact allowed io' t' left grows inv ⟨img, answered.mono grows, shown⟩
    · intro there io' t' grows inv _
      exact ends _ io' t' grows inv

/-- A removal, under any rule that lets what was read back be stopped and removed. -/
theorem removeResource_keeps {post : RemoveResult → State → StepIo → Past → Prop} (lets : LetsRead rule)
    (unwritten : Unwritten J) (start : J io t) (container : req.kind = .container → LetsRemove rule J req t)
    (image : req.kind = .image → ∀ io' t' left, t ⊆ t' → J io' t' → ImageReadBack t' req.id req.app req.deployment →
      rule t' (.host (.api (.removeImage req.id) left)))
    (ends : ∀ result io' t', t ⊆ t' → J io' t' →
      (req.kind = .container → isGone (discardOutcome (.ok result)) = true → Gone t' req.id) → post result st io' t')
    (fails : ∀ e io' t', t ⊆ t' → J io' t' → fail e st io' t') :
    Serves rule (removeResource self req) post fail st io t := by
  unfold removeResource
  dsimp only
  cases kind : req.kind with
  | portLease => exact ends _ io t (List.Subset.refl t) start fun _ gone => nomatch gone
  | container =>
    refine serves_bind.mpr (verifyContainer_keeps lets unwritten start (fun verified io₁ t₁ grows₁ inv₁ shown => ?_) fails)
    refine removeContainer_keeps lets unwritten inv₁ shown ((container kind).mono grows₁) ?_ ?_
    · intro result io₂ t₂ grows₂ inv₂ gone
      exact ends result io₂ t₂ (subset_trans grows₁ grows₂) inv₂ fun _ => gone
    · intro e io₂ t₂ grows₂ inv₂
      exact fails e io₂ t₂ (subset_trans grows₁ grows₂) inv₂
  | image =>
    refine serves_bind.mpr (call_keeps lets unwritten start (fun _ t' _ _ _ => lets.2 t' _ trivial) ?_ fails)
    intro found io₁ t₁ grows₁ inv₁ answered
    refine removeImage_keeps lets unwritten inv₁ answered ?_ ?_ ?_
    · intro io' t' left grows inv read
      exact image kind io' t' left (subset_trans grows₁ grows) inv read
    · intro result io₂ t₂ grows₂ inv₂
      exact ends result io₂ t₂ (subset_trans grows₁ grows₂) inv₂ fun no => nomatch kind.symm.trans no
    · intro e io₂ t₂ grows₂ inv₂
      exact fails e io₂ t₂ (subset_trans grows₁ grows₂) inv₂

end Removing

/-! ## Creation -/

variable {name : String} {lease : PortLease}

/-- What a create request is made of: the origin, the environment with at most a marker behind it, and the
lease. -/
structure CreatedAs (backend : DockerBackend) (app : ApplicationId) (dep : DeploymentId) (st : State) (lease : PortLease)
    (spec : CreateSpec) : Prop where
  origin : ∃ o, originOf backend dep st = .ok o ∧ spec.image = o.imageId ∧ spec.limits = o.limits
  labels : spec.labels = creationLabels app dep st
  env : ∃ env marker, creationEnv backend st = .ok env ∧ spec.env = env ++ marker ∧
    (marker = [] ∨ ∃ value, marker = [markerEnv ++ "=" ++ value])
  containerPort : spec.containerPort = lease.containerPort
  hostPort : spec.hostPort = lease.hostPort

/-- Only markers were added to the memory. -/
def Marked (st st' : State) : Prop :=
  ∃ markers created, st' = { st with markers := markers, createdImages := created }

/-- A container was made, and stands in the ledger under its id. -/
structure Made (app : ApplicationId) (dep : DeploymentId) (name id : String) (spec : CreateSpec) (io : StepIo)
    (t : Past) : Prop where
  created : Answered t (.createContainer name spec) (.created id)
  intended : Intended app dep t ⟨.container, name⟩
  receipted : Receipted dep t ⟨.container, name⟩ id
  found : ∃ e, io.ledger.find dep ⟨.container, name⟩ = some e ∧ e.app = app ∧ e.id = some id

/-- A container that was made may be started. -/
theorem Made.startable {t' : Past} {id : String} {spec : CreateSpec} (made : Made app dep name id spec io t) (grows : t ⊆ t') :
    ∃ name, Intended app dep t' ⟨.container, name⟩ ∧ Receipted dep t' ⟨.container, name⟩ id :=
  ⟨name, made.intended.mono grows, made.receipted.mono grows⟩

theorem giveMarker_serves {imageId : String} {post : List String → State → StepIo → Past → Prop}
    (fits : Fits l app dep plans st io t)
    (ends : ∀ marker st' io' t', t ⊆ t' → Same io io' → Fits l app dep plans st' io' t' → Marked st st' →
      (marker = [] ∨ ∃ value, marker = [markerEnv ++ "=" ++ value]) → post marker st' io' t') :
    Serves (Allowed l app dep) (giveMarker self name imageId) post (Aborts l app dep plans) st io t := by
  unfold giveMarker
  cases self.cfg.attribution with
  | off => exact ends [] st io t (List.Subset.refl t) (.refl io) fits ⟨_, _, rfl⟩ (.inl rfl)
  | perContainer =>
    refine serves_bind.mpr (randomHex_reads.fits fits fun value io' t' _ grows same fits' => ?_)
    refine serves_bind.mpr (serves_modify.mpr ?_)
    exact ends _ _ io' t' grows.subset same (fits'.memory _ rfl fun _ h => h) ⟨_, _, rfl⟩ (.inr ⟨value, rfl⟩)

theorem recordCreated_serves {intent : Intent} {outcome : CreateOutcome} {spec : CreateSpec} {disposition : Disposition}
    {ms : Nat} {l₀ : Ledger} {post : String → State → StepIo → Past → Prop} (fits : Fits l app dep plans st io t)
    (key : intent.key = ⟨.container, name⟩) (wished : Intended app dep t ⟨.container, name⟩)
    (intended : Ledger.Applied l₀ (.intent ⟨.container, name⟩ app dep disposition ms) io.ledger)
    (answered : Answered t (.createContainer name spec) outcome) (leased : Leased io.ledger lease.hostPort)
    (ends : ∀ id io' t', t ⊆ t' → Fits l app dep plans st io' t' → Made app dep name id spec io' t' →
      Leased io'.ledger lease.hostPort → post id st io' t') :
    Serves (Allowed l app dep) (recordCreated name intent outcome) post (Aborts l app dep plans) st io t := by
  obtain ⟨key'⟩ := intent
  cases key
  cases outcome with
  | nameInUse why => exact fun _ => fits
  | created id =>
    refine serves_bind.mpr (receipt_serves fits fun ms' io' t' grows fits' receipted applied => ?_)
    obtain ⟨e, found, own, known, _⟩ := Ledger.find_receipted (Ledger.find_intended intended) applied
    refine ends id io' t' grows fits' ⟨answered.mono grows, wished.mono grows, ⟨ms', receipted⟩, e, found, own, known⟩ ?_
    exact Ledger.leased_applied leased applied fun ⟨_, _, _, eq, _⟩ => nomatch eq

/-- A container is created under an intent, on a leased port, and receipted. -/
theorem createContainer_serves {disposition : Disposition} {post : String → State → StepIo → Past → Prop}
    (fits : Fits l app dep plans st io t) (leased : Leased io.ledger lease.hostPort)
    (ends : ∀ id spec st' io' t', t ⊆ t' → Fits l app dep plans st' io' t' → Marked st st' → CreatedAs self app dep st lease spec →
      Made app dep name id spec io' t' → Leased io'.ledger lease.hostPort → post id st' io' t') :
    Serves (Allowed l app dep) (createContainer self b name disposition lease) post (Aborts l app dep plans) st io t := by
  refine serves_bind.mpr (serves_app (serves_bind.mpr (serves_deployment (serves_bind.mpr (serves_get.mpr ?_)))))
  rw [fits.ofApp, fits.ofDep]
  refine serves_bind.mpr (serves_ofExcept (fun o origin => ?_) fun _ _ _ => fits)
  refine serves_bind.mpr (checkImage_reads.fits fits fun _ io₁ t₁ _ grows₁ same₁ fits₁ => ?_)
  refine serves_bind.mpr (serves_ofExcept (fun env environment => ?_) fun _ _ _ => fits₁)
  refine serves_bind.mpr (giveMarker_serves fits₁ fun marker st₂ io₂ t₂ grows₂ same₂ fits₂ marked given => ?_)
  refine serves_bind.mpr (intend_serves fits₂ fun ms io₃ t₃ grows₃ fits₃ written applied => ?_)
  have leased₃ : Leased io₃.ledger lease.hostPort := by
    rw [← same₁.ledger, ← same₂.ledger] at leased
    exact Ledger.leased_applied leased applied fun ⟨_, _, _, eq, _⟩ => nomatch eq
  have spec : CreatedAs self app dep st lease
      ⟨o.imageId, creationLabels app dep st, env ++ marker, lease.containerPort, lease.hostPort, o.limits⟩ :=
    ⟨⟨o, origin, rfl, rfl⟩, rfl, ⟨env, marker, environment, rfl, given⟩, rfl, rfl⟩
  have wished : Intended app dep t₃ ⟨.container, name⟩ := ⟨disposition, ms, written⟩
  refine serves_bind.mpr (call_serves fits₃ (fun io' t' _ grows same fits => ⟨wished.mono grows, ?_⟩) ?_)
  · exact fits.ledger ▸ same.ledger.symm ▸ leased₃
  · intro outcome io₄ t₄ grows₄ same₄ fits₄ answered
    refine recordCreated_serves fits₄ rfl (wished.mono grows₄) (same₄.ledger ▸ applied) answered (same₄.ledger ▸ leased₃) ?_
    intro id io₅ t₅ grows₅ fits₅ made leased₅
    exact ends id _ st₂ io₅ t₅
      (subset_trans (subset_trans (subset_trans (subset_trans grows₁.subset grows₂) grows₃) grows₄) grows₅) fits₅ marked spec made leased₅

/-! ## The source and the build -/

section

/-- How an operation ends: in accord with the ledger, or with a write that failed. -/
abbrev Conducts (l : Ledger) (app : ApplicationId) (dep : DeploymentId) (plans : Prop) (x : Docker α) (st : State) (io : StepIo)
    (t : Past) : Prop :=
  Serves (Allowed l app dep) x (fun _ st' io' t' => Fits l app dep plans st' io' t') (Aborts l app dep plans) st io t

theorem Reads.conducts {P : α → Prop} {x : Docker α} (reads : Reads P x) (fits : Fits l app dep plans st io t) :
    Conducts l app dep plans x st io t := reads.fits fits fun _ _ _ _ _ _ fits => fits

/-- Asking for what changes nothing. -/
theorem asks_fits {op : HostOp} {post : op.Answer → State → StepIo → Past → Prop} (fits : Fits l app dep plans st io t)
    (quiet : op.IsQuiet)
    (ends : ∀ answer io' t', Grows t t' → Same io io' → Fits l app dep plans st io' t' → post answer st io' t') :
    Serves (Allowed l app dep) (host op) post (Aborts l app dep plans) st io t :=
  (Reads.asks quiet).fits fits fun answer io' t' _ => ends answer io' t'

theorem call_fits {what name : String} {op : ApiOp} {post : op.Value → State → StepIo → Past → Prop}
    (fits : Fits l app dep plans st io t) (quiet : HostOp.IsQuiet (.api op 0))
    (ends : ∀ value io' t', Grows t t' → Same io io' → Fits l app dep plans st io' t' → post value st io' t') :
    Serves (Allowed l app dep) (call b what name op) post (Aborts l app dep plans) st io t :=
  (call_reads quiet).fits fits fun value io' t' _ => ends value io' t'

theorem prepareRollbackImage_conducts {d : DeploymentId} {c : ReleaseConfig} (fits : Fits l app dep plans st io t) :
    Conducts l app dep plans (prepareRollbackImage b d c) st io t := by
  refine serves_bind.mpr (require_reads.fits fits fun _ _ _ _ _ _ fits => ?_)
  refine serves_bind.mpr (call_fits fits trivial fun _ _ _ _ _ fits => ?_)
  refine serves_bind.mpr (call_fits fits trivial fun _ _ _ _ _ fits => ?_)
  refine serves_bind.mpr (present_reads.fits fits fun _ _ _ _ _ _ fits => ?_)
  refine serves_bind.mpr (serves_app (serves_bind.mpr (require_reads.fits fits fun _ _ _ _ _ _ fits => ?_)))
  refine serves_bind.mpr (pushLine_reads.fits fits fun _ _ _ _ _ _ fits => ?_)
  exact serves_modify.mpr (fits.memory _ rfl fun _ h => h)

theorem prepareBuild_conducts (fits : Fits l app dep plans st io t) : Conducts l app dep plans (prepareBuild self b) st io t := by
  refine serves_bind.mpr (asks_fits fits trivial fun confined _ _ _ _ fits => ?_)
  refine serves_bind.mpr (Reads.ofExcept.fits fits fun src _ _ _ _ _ fits => ?_)
  refine serves_bind.mpr (pushLine_reads.fits fits fun _ _ _ _ _ _ fits => ?_)
  refine serves_bind.mpr (pushLines_reads.fits fits fun _ _ _ _ _ _ fits => ?_)
  refine serves_bind.mpr (asks_fits fits trivial fun measured _ _ _ _ fits => ?_)
  refine serves_bind.mpr (Reads.ofExcept.fits fits fun size _ _ _ _ _ fits => ?_)
  refine serves_bind.mpr (require_reads.fits fits fun _ _ _ _ _ _ fits => ?_)
  refine serves_bind.mpr (asks_fits fits trivial fun counted _ _ _ _ fits => ?_)
  refine serves_bind.mpr (Reads.ofExcept.fits fits fun free _ _ _ _ _ fits => ?_)
  refine serves_bind.mpr (require_reads.fits fits fun _ _ _ _ _ _ fits => ?_)
  refine serves_bind.mpr (checkGuest_reads.fits fits fun _ _ _ _ _ _ fits => ?_)
  refine serves_bind.mpr (Reads.ofExcept.fits fits fun images _ _ _ _ _ fits => ?_)
  refine serves_bind.mpr (serves_modify.mpr ?_)
  have fits := fits.memory { st with requiredImages := some images, contextBytes := size } rfl fun _ h => h
  refine serves_bind.mpr (call_fits fits trivial fun _ _ _ _ _ fits => ?_)
  refine serves_bind.mpr (checkBaseImages_reads.fits fits fun _ _ _ _ _ _ fits => ?_)
  refine serves_bind.mpr (asks_fits fits trivial fun made _ _ _ _ fits => ?_)
  exact Reads.ofExcept.conducts fits

theorem prepareSource_conducts (fits : Fits l app dep plans st io t) : Conducts l app dep plans (prepareSource self) st io t := by
  refine serves_bind.mpr (stepBudget_reads.fits fits fun b _ _ _ _ _ fits => ?_)
  refine serves_bind.mpr (Reads.ofExcept.fits fits fun _ _ _ _ _ _ fits => ?_)
  refine serves_bind.mpr (serves_get.mpr ?_)
  cases st.rollback with
  | some target => exact prepareRollbackImage_conducts fits
  | none => exact prepareBuild_conducts fits

theorem runBuildx_serves {tag nonce : String} {labels : Labels} {snap : Snapshot}
    {post : String → State → StepIo → Past → Prop} (fits : Fits l app dep plans st io t)
    (intended : Intended app dep t ⟨.image, tag⟩)
    (ends : ∀ iid io' t', t ⊆ t' → Fits l app dep plans st io' t' → post iid st io' t') :
    Serves (Allowed l app dep) (runBuildx self b tag nonce labels snap) post (Aborts l app dep plans) st io t := by
  refine serves_bind.mpr (asks_fits fits trivial fun _ _ _ grows₁ _ fits => ?_)
  refine serves_bind.mpr (Reads.ofExcept.fits fits fun wanted _ _ _ grows₂ _ fits => ?_)
  refine serves_bind.mpr (asks_fits fits trivial fun written _ _ grows₃ _ fits => ?_)
  refine serves_bind.mpr (Reads.ofExcept.fits fits fun files _ _ _ grows₄ _ fits => ?_)
  refine serves_bind.mpr (require_reads.fits fits fun _ _ _ _ grows₅ _ fits => ?_)
  refine serves_bind.mpr (left_reads.fits fits fun left io₆ t₆ _ grows₆ _ fits => ?_)
  have grows := ((((grows₁.trans grows₂).trans grows₃).trans grows₄).trans grows₅).trans grows₆
  refine serves_bind.mpr ⟨intended.mono grows.subset, fun answer => ?_⟩
  obtain ⟨chunks, outcome⟩ := answer
  refine serves_bind.mpr (pushChunks_reads.fits fits.host fun _ _ _ _ grows₇ _ fits => ?_)
  refine serves_bind.mpr (asks_fits fits trivial fun _ _ _ grows₈ _ fits => ?_)
  refine serves_bind.mpr (asks_fits fits trivial fun text _ _ grows₉ _ fits => ?_)
  refine serves_bind.mpr (Reads.ofExcept.fits fits fun _ _ _ _ grows₁₀ _ fits => ?_)
  refine Reads.ofExcept.fits fits fun iid io' t' _ grows₁₁ _ fits => ?_
  have grows' := (((grows₇.trans grows₈).trans grows₉).trans grows₁₀).trans grows₁₁
  exact ends iid io' t' (fun _ mem => grows'.mem (List.mem_cons_of_mem _ (grows.mem mem))) fits

theorem recordBuilt_conducts {tag iid : String} {intent : Intent} (fits : Fits l app dep plans st io t) :
    Conducts l app dep plans (recordBuilt b tag iid intent) st io t := by
  refine serves_bind.mpr (call_fits fits trivial fun _ _ _ _ _ fits => ?_)
  refine serves_bind.mpr (present_reads.fits fits fun _ _ _ _ _ _ fits => ?_)
  refine serves_bind.mpr (require_reads.fits fits fun _ _ _ _ _ _ fits => ?_)
  refine serves_bind.mpr (serves_app (serves_bind.mpr (serves_deployment ?_)))
  refine serves_bind.mpr (require_reads.fits fits fun _ _ _ _ _ _ fits => ?_)
  refine serves_bind.mpr (receipt_serves fits fun _ _ _ _ fits _ _ => ?_)
  refine serves_bind.mpr (serves_modify.mpr ?_)
  have fits := fits.memory { st with imageId := some iid } rfl fun _ h => h
  refine serves_bind.mpr (call_fits fits trivial fun _ _ _ _ _ fits => ?_)
  refine serves_bind.mpr (Reads.ofExcept.fits fits fun _ _ _ _ _ _ fits => ?_)
  exact pushLine_reads.conducts fits

theorem buildFromSnapshot_conducts {tag nonce : String} {labels : Labels} {intent : Intent} {snap : Snapshot} {src : Source}
    (fits : Fits l app dep plans st io t) (intended : Intended app dep t ⟨.image, tag⟩) :
    Conducts l app dep plans (buildFromSnapshot self b tag nonce labels intent snap src) st io t := by
  refine serves_bind.mpr (pushLines_reads.fits fits fun _ _ _ _ grows₁ _ fits => ?_)
  refine serves_bind.mpr (pushLine_reads.fits fits fun _ _ _ _ grows₂ _ fits => ?_)
  refine serves_bind.mpr (asks_fits fits trivial fun read _ _ grows₃ _ fits => ?_)
  refine serves_bind.mpr (Reads.ofExcept.fits fits fun text _ _ _ grows₄ _ fits => ?_)
  refine serves_bind.mpr (Reads.ofExcept.fits fits fun images _ _ _ grows₅ _ fits => ?_)
  refine serves_bind.mpr (serves_get.mpr ?_)
  refine serves_bind.mpr (require_reads.fits fits fun _ _ _ _ grows₆ _ fits => ?_)
  refine serves_bind.mpr (asks_fits fits trivial fun found _ _ grows₇ _ fits => ?_)
  refine serves_bind.mpr (require_reads.fits fits fun _ _ _ _ grows₈ _ fits => ?_)
  have grows := ((((((grows₁.trans grows₂).trans grows₃).trans grows₄).trans grows₅).trans grows₆).trans grows₇).trans grows₈
  refine serves_bind.mpr (runBuildx_serves fits (intended.mono grows.subset) fun iid _ _ _ fits => ?_)
  exact recordBuilt_conducts fits

theorem build_conducts (fits : Fits l app dep plans st io t) : Conducts l app dep plans (build self) st io t := by
  refine serves_bind.mpr (serves_get.mpr ?_)
  cases st.rollback.isSome with
  | true => exact pushLine_reads.conducts fits
  | false =>
    refine serves_bind.mpr (stepBudget_reads.fits fits fun b _ _ _ _ _ fits => ?_)
    refine serves_bind.mpr (randomHex_reads.fits fits fun nonce _ _ _ _ _ fits => ?_)
    refine serves_bind.mpr (serves_app (serves_bind.mpr (serves_deployment ?_)))
    rw [fits.ofApp, fits.ofDep]
    refine serves_bind.mpr (call_fits fits trivial fun _ _ _ _ _ fits => ?_)
    refine serves_bind.mpr (Reads.ofExcept.fits fits fun _ _ _ _ _ _ fits => ?_)
    refine serves_bind.mpr (intend_serves fits fun ms io₁ t₁ _ fits written _ => ?_)
    refine serves_bind.mpr (serves_modify.mpr ?_)
    have fits := fits.memory { st with imageTag := some (imageTag app dep nonce) } rfl fun _ h => h
    have intended : Intended app dep t₁ ⟨.image, imageTag app dep nonce⟩ := ⟨.retain, ms, written⟩
    refine serves_bind.mpr (asks_fits fits trivial fun confined _ _ grows₂ _ fits => ?_)
    refine serves_bind.mpr (Reads.ofExcept.fits fits fun src _ _ _ grows₃ _ fits => ?_)
    refine serves_bind.mpr (asks_fits fits trivial fun copied _ _ grows₄ _ fits => ?_)
    refine serves_bind.mpr (Reads.ofExcept.fits fits fun snap _ _ _ grows₅ _ fits => ?_)
    have grows := ((grows₂.trans grows₃).trans grows₄).trans grows₅
    refine serves_bind.mpr (serves_attempt.mpr ?_)
    refine (buildFromSnapshot_conducts fits (intended.mono grows.subset)).mono (fun _ _ _ _ fits => ?_) fun e st io t aborts => ?_
    · exact serves_bind.mpr (asks_fits fits trivial fun _ _ _ _ _ fits => fits)
    · -- The copy is removed whatever happened.
      refine serves_bind.mpr ⟨trivial, fun answer plain => ?_⟩
      exact (aborts plain).host

/-! ## The checks -/

theorem preliminaryCheck_conducts (fits : Fits l app dep plans st io t) : Conducts l app dep plans (preliminaryCheck self) st io t := by
  refine serves_bind.mpr (stepBudget_reads.fits fits fun b _ _ _ _ _ fits => ?_)
  refine serves_bind.mpr (allocatePort_reads.fits fits fun lease _ _ _ _ _ fits => ?_)
  refine serves_bind.mpr (intend_serves fits fun ms₁ _ _ _ fits _ intent => ?_)
  refine serves_bind.mpr (receipt_serves fits fun ms₂ _ _ _ fits _ receipt => ?_)
  have leased := leased_receipted intent receipt
  refine serves_bind.mpr (serves_deployment ?_)
  rw [fits.ofDep]
  refine serves_bind.mpr (createContainer_serves fits leased fun id spec st' io₁ t₁ _ fits marked created made _ => ?_)
  refine serves_bind.mpr (serves_modify.mpr ?_)
  have fits := fits.memory { st' with pre := some (preliminaryName dep, lease.hostPort) } rfl fun _ h => h
  refine serves_bind.mpr (call_serves fits (fun _ _ _ grows _ _ => made.startable grows) ?_)
  intro _ io₂ t₂ _ _ fits _
  exact health_reads.conducts fits

theorem finalCheck_conducts (fits : Fits l app dep plans st io t) : Conducts l app dep plans (finalCheck self) st io t := by
  refine serves_bind.mpr (stepBudget_reads.fits fits fun b _ _ _ _ _ fits => ?_)
  refine serves_bind.mpr (application_reads.fits fits fun found _ _ _ _ _ fits => ?_)
  refine serves_bind.mpr (applicationId_reads.fits fits fun id _ _ _ _ _ fits => ?_)
  exact health_reads.conducts fits

/-! ## The cutover -/

theorem planRelease_conducts (due : plans) (fits : Fits l app dep plans st io t) : Conducts l app dep plans (planRelease self) st io t := by
  refine serves_bind.mpr (stepBudget_reads.fits fits fun b _ _ _ _ _ fits => ?_)
  refine serves_bind.mpr (serves_get.mpr (serves_bind.mpr ?_))
  refine present_reads.fits fits fun built _ _ _ _ _ fits => ?_
  refine serves_bind.mpr (Reads.ofExcept.fits fits fun _ _ _ _ _ _ fits => ?_)
  refine serves_bind.mpr (Reads.ofExcept.fits fits fun _ _ _ _ _ _ fits => ?_)
  refine serves_bind.mpr (allocatePort_reads.fits fits fun lease _ _ _ _ _ fits => ?_)
  refine serves_bind.mpr (leasePort_serves fits fun io₁ t₁ _ fits leased => ?_)
  refine serves_bind.mpr (serves_modify.mpr (serves_bind.mpr (serves_get.mpr ?_)))
  exact { fits with planned := fun lease' same => by cases same; exact ⟨due, leased⟩ }

/-- An entry that was found stays while nothing is written. -/
theorem unwritten_mem {e : Entry} :
    Unwritten fun io' t' => Fits l app dep plans st io' t' ∧ e ∈ io'.ledger.entries where
  grows := fun h grows same => ⟨h.1.grows grows same, same.ledger ▸ h.2⟩
  host := fun h => ⟨h.1.host, h.2⟩

section

variable {e : Entry} {id what : String}

theorem verifyEntry_fits {post : Verified ContainerInfo → State → StepIo → Past → Prop} (fits : Fits l app dep plans st io t)
    (mem : e ∈ io.ledger.entries)
    (ends : ∀ verified io' t', Fits l app dep plans st io' t' → e ∈ io'.ledger.entries → Shown t' (requestFor e id) verified →
      post verified st io' t') :
    Serves (Allowed l app dep) (verifyContainer b what (requestFor e id)) post (Aborts l app dep plans) st io t := by
  refine verifyContainer_keeps allowed_reads unwritten_mem ⟨fits, mem⟩ ?_ fun _ _ _ _ inv _ => inv.1
  intro verified io' t' _ inv shown
  exact ends verified io' t' inv.1 inv.2 shown

/-- The container of an entry that stands in the ledger may be stopped, once it was read back. -/
theorem stopEntry_fits {name : String} {post : Bool → State → StepIo → Past → Prop} (fits : Fits l app dep plans st io t)
    (mem : e ∈ io.ledger.entries) (kind : e.key.kind = .container) (known : e.id = some id)
    (read : ReadBack t id e.key.name e.app e.deployment)
    (ends : ∀ there io' t', Fits l app dep plans st io' t' → post there st io' t') :
    Serves (Allowed l app dep) (call b what name (.stopContainer id 10)) post (Aborts l app dep plans) st io t := by
  refine call_keeps allowed_reads unwritten_mem ⟨fits, mem⟩ ?_ ?_ fun _ _ _ _ inv _ => inv.1
  · intro io' t' left grows inv
    exact ⟨e, inv.1.ledger ▸ inv.2, kind, known, read.mono grows⟩
  · intro there io' t' _ inv _
    exact ends there io' t' inv.1

end

theorem servingContainer_some {previous : PreviousRelease} {e : Entry} {ledger : Ledger}
    (found : servingContainer ledger app previous = some e) :
    e ∈ ledger.entries ∧ e.key.kind = .container ∧ e.app = app ∧ e.isReleased = false ∧ ∃ id, e.id = some id := by
  have holds := List.find?_some found
  simp only [Bool.and_eq_true, decide_eq_true_eq, Bool.not_eq_true'] at holds
  obtain ⟨⟨⟨⟨⟨_, _⟩, own⟩, kind⟩, unreleased⟩, known⟩ := holds
  exact ⟨List.mem_of_find?_eq_some found, kind, own, unreleased, Option.isSome_iff_exists.mp known⟩

theorem stopCurrent_conducts {previous : PreviousRelease} (fits : Fits l app dep plans st io t) :
    Conducts l app dep plans (stopCurrent previous) st io t := by
  refine serves_bind.mpr (stepBudget_reads.fits fits fun b io₁ t₁ _ _ _ fits => ?_)
  refine serves_bind.mpr (serves_ledger (serves_bind.mpr (serves_app (serves_bind.mpr ?_))))
  refine present_reads.fits fits fun e io₂ t₂ serving _ same fits => ?_
  obtain ⟨mem, kind, _, _, id, known⟩ := servingContainer_some serving
  have shape : containerOf e = requestFor e id := by rw [containerOf, known]; rfl
  rw [shape]
  refine serves_bind.mpr (verifyEntry_fits fits (same.ledger ▸ mem) fun verified io₃ t₃ fits mem shown => ?_)
  cases verified with
  | absent => exact fun _ => fits
  | refused why => exact fun _ => fits
  | ok info =>
    refine serves_bind.mpr (require_reads.fits fits fun _ io₄ t₄ _ grows same fits => ?_)
    have read := (shown.ok info rfl).mono grows.subset
    exact serves_bind.mpr (stopEntry_fits fits (same.ledger ▸ mem) kind known read fun _ _ _ fits => fits)

/-- The id that the ledger has for a container of this deployment. -/
theorem applicationId_fits {name : String} {post : String → State → StepIo → Past → Prop} (fits : Fits l app dep plans st io t)
    (ends : ∀ id io' t', (io.ledger.find dep ⟨.container, name⟩).bind (·.id) = some id → Grows t t' → Same io io' →
      Fits l app dep plans st io' t' → post id st io' t') :
    Serves (Allowed l app dep) (applicationId name) post (Aborts l app dep plans) st io t := by
  refine serves_bind.mpr (serves_bind.mpr (serves_ledger (serves_bind.mpr (serves_deployment ?_))))
  rw [fits.ofDep]
  exact serves_pure.mpr (present_reads.fits fits ends)

/-- The container stands in the ledger under its id. -/
abbrev Standing (app : ApplicationId) (dep : DeploymentId) (name id : String) (ledger : Ledger) : Prop :=
  ∃ e, ledger.find dep ⟨.container, name⟩ = some e ∧ e.app = app ∧ e.id = some id

theorem Standing.request {name id : String} {ledger : Ledger} (standing : Standing app dep name id ledger) :
    ∃ e ∈ ledger.entries, e.key.kind = .container ∧ e.id = some id ∧
      (⟨.container, id, name, app, dep⟩ : RemoveRequest) = requestFor e id := by
  obtain ⟨e, found, own, known⟩ := standing
  have ref := Deploy.Ledger.find_ref found
  obtain ⟨key, app', dep', _, _, _, _, _⟩ := e
  cases ref
  cases own
  exact ⟨_, Deploy.Ledger.find_mem found, rfl, known, rfl⟩

theorem stopNew_conducts (fits : Fits l app dep plans st io t) : Conducts l app dep plans stopNew st io t := by
  refine serves_bind.mpr (stepBudget_reads.fits fits fun b _ _ _ _ _ fits => ?_)
  refine serves_bind.mpr (serves_bind.mpr (serves_get.mpr (present_reads.fits fits ?_)))
  rintro ⟨name, port⟩ io₁ t₁ made _ _ fits
  refine serves_bind.mpr (applicationId_fits fits fun id io₂ t₂ known _ same fits => ?_)
  refine serves_bind.mpr (serves_app (serves_bind.mpr (serves_deployment ?_)))
  rw [fits.ofApp, fits.ofDep]
  obtain ⟨e, found, own⟩ := fits.recorded name port made
  rw [← same.ledger, found] at known
  obtain ⟨e', mem, kind, id', shape⟩ := Standing.request ⟨e, found, own, known⟩
  rw [shape]
  refine serves_bind.mpr (verifyEntry_fits fits mem fun verified io₃ t₃ fits mem shown => ?_)
  cases verified with
  | absent => exact fits
  | refused why => exact fun _ => fits
  | ok info =>
    exact serves_bind.mpr (stopEntry_fits fits mem kind id' (shown.ok info rfl) fun _ _ _ fits => fits)

/-! ## The start -/

theorem unwritten_standing {name id : String} :
    Unwritten fun io' t' => Fits l app dep plans st io' t' ∧ Standing app dep name id io'.ledger where
  grows := fun h grows same => ⟨h.1.grows grows same, same.ledger ▸ h.2⟩
  host := fun h => ⟨h.1.host, h.2⟩

/-- What this deployment made may be discarded. -/
theorem discardContainer_serves {name id : String} {post : Unit → State → StepIo → Past → Prop}
    (fits : Fits l app dep plans st io t) (receipted : Receipted dep t ⟨.container, name⟩ id)
    (standing : Standing app dep name id io.ledger)
    (ends : ∀ io' t', t ⊆ t' → Fits l app dep plans st io' t' → post () st io' t') :
    Serves (Allowed l app dep) (discardContainer self name id) post (Aborts l app dep plans) st io t := by
  refine serves_bind.mpr (serves_app (serves_bind.mpr (serves_deployment ?_)))
  rw [fits.ofApp, fits.ofDep]
  refine serves_bind.mpr (cleanupAttempt_serves fits fun ms io₁ t₁ grows₁ fits₁ applied => ?_)
  have standing₁ : Standing app dep name id io₁.ledger := by
    obtain ⟨e, found, own, known⟩ := standing
    obtain ⟨e', found', stays⟩ := Ledger.find_applied found applied
    exact ⟨e', found', stays.app.trans own, stays.id id known⟩
  -- The result is recorded whatever it is: gone only if Docker said so.
  have result : ∀ (out : Except StepError RemoveResult) io' t', t ⊆ t' → Fits l app dep plans st io' t' →
      (isGone (discardOutcome out) = true → Gone t' id) →
      Serves (Allowed l app dep) (do
        cleanupResult ⟨.container, name⟩ (discardOutcome out)
        require (isGone (discardOutcome out))
          (.new s!"could not remove the collided container {name}: {outcomeDebug (discardOutcome out)}"))
        post (Aborts l app dep plans) st io' t' := by
    intro out io' t' grows fits gone
    refine serves_bind.mpr (cleanupResult_serves fits (fun _ is => ⟨id, receipted.mono grows, gone is⟩) ?_ ?_)
    · intro _ _ same
      cases same
    · intro _ io₂ t₂ grows₂ fits₂ _
      refine require_reads.fits fits₂ fun _ io₃ t₃ _ grows₃ _ fits₃ => ?_
      exact ends io₃ t₃ (subset_trans (subset_trans grows grows₂) grows₃.subset) fits₃
  refine serves_bind.mpr (serves_attempt.mpr ?_)
  refine removeResource_keeps allowed_reads unwritten_standing ⟨fits₁, standing₁⟩ ?_ (fun no => nomatch no) ?_ ?_
  · rintro _ io' t' left grows ⟨fits, standing⟩ read
    obtain ⟨e, mem, kind, known, shape⟩ := standing.request
    have same : e.key.name = name ∧ e.app = app ∧ e.deployment = dep := by
      injection shape with _ _ name' app' dep'
      exact ⟨name'.symm, app'.symm, dep'.symm⟩
    have verifiable : Verifiable (acked l t') t' id := by
      refine ⟨e, fits.ledger ▸ mem, kind, known, ?_⟩
      rw [same.1, same.2.1, same.2.2]
      exact read
    exact ⟨verifiable, verifiable⟩
  · intro out io' t' grows inv gone
    exact result (.ok out) io' t' (subset_trans grows₁ grows) inv.1 (gone rfl)
  · intro e io' t' grows inv
    exact result (.error e) io' t' (subset_trans grows₁ grows) inv.1 fun no => nomatch no

/-- The port that a start begins with. -/
theorem startingLease_serves {post : PortLease → State → StepIo → Past → Prop} (fits : Fits l app dep plans st io t)
    (ends : ∀ lease io' t', t ⊆ t' → Fits l app dep plans { st with plannedLease := none } io' t' →
      Leased io'.ledger lease.hostPort → (st.plannedLease = none → lease.containerPort = self.cfg.containerPort) →
      (∀ planned, st.plannedLease = some planned → lease = planned) →
      post lease { st with plannedLease := none } io' t') :
    Serves (Allowed l app dep) (startingLease self b) post (Aborts l app dep plans) st io t := by
  refine serves_bind.mpr (serves_get.mpr (serves_bind.mpr (serves_modify.mpr ?_)))
  have fits' := fits.memory { st with plannedLease := none } rfl fun _ no => nomatch no
  cases planned : st.plannedLease with
  | some lease =>
    refine ends lease io t (List.Subset.refl t) fits' (fits.planned lease planned).2 (fun no => ?_) fun other same => ?_
    · cases planned.symm.trans no
    · cases planned.symm.trans same
      rfl
  | none =>
    refine serves_bind.mpr (allocatePort_reads.fits fits' fun lease _ _ port grows₁ _ fits₁ => ?_)
    refine serves_bind.mpr (leasePort_serves fits₁ fun io₂ t₂ grows₂ fits₂ leased => ?_)
    refine ends lease io₂ t₂ (subset_trans grows₁.subset grows₂) fits₂ leased (fun _ => port) fun other same => ?_
    cases planned.symm.trans same

/-- The memory agrees in what a release is configured from. -/
structure SameRelease (st st' : State) : Prop where
  imageId : st'.imageId = st.imageId
  imageTag : st'.imageTag = st.imageTag
  restoring : st'.restoring = st.restoring
  rollback : st'.rollback = st.rollback

theorem SameRelease.trans {st'' : State} (h : SameRelease st st') (h' : SameRelease st' st'') : SameRelease st st'' :=
  ⟨h'.imageId.trans h.imageId, h'.imageTag.trans h.imageTag, h'.restoring.trans h.restoring, h'.rollback.trans h.rollback⟩

theorem Marked.same {st' : State} (marked : Marked st st') : SameRelease st st' := by
  obtain ⟨markers, created, rfl⟩ := marked
  exact ⟨rfl, rfl, rfl, rfl⟩

theorem CreatedAs.same {st' : State} {spec : CreateSpec} (created : CreatedAs self app dep st' lease spec)
    (same : SameRelease st st') : CreatedAs self app dep st lease spec := by
  obtain ⟨_, _, _, _, _, _, _, _, _, _, _, _⟩ := st
  obtain ⟨_, _, _, _, _, _, _, _, _, _, _, _⟩ := st'
  obtain ⟨rfl, rfl, rfl, rfl⟩ := same
  exact ⟨created.origin, created.labels, created.env, created.containerPort, created.hostPort⟩

/-- The application container, made from the memory as it was in `st`, as the memory and the ledger now have
it. -/
structure Prepared (backend : DockerBackend) (app : ApplicationId) (dep : DeploymentId) (st : State) (name id : String)
    (lease : PortLease) (st' : State) (io' : StepIo) (t' : Past) : Prop where
  memory : st'.app = some (name, lease.hostPort)
  made : ∃ spec, CreatedAs backend app dep st lease spec ∧ Made app dep name id spec io' t'
  same : SameRelease st st'
  unplanned : st'.plannedLease = none

theorem Made.grows {io' : StepIo} {t' : Past} {id : String} {spec : CreateSpec} (made : Made app dep name id spec io t)
    (grows : t ⊆ t') (same : Same io io') : Made app dep name id spec io' t' :=
  ⟨made.created.mono grows, made.intended.mono grows, made.receipted.mono grows, same.ledger ▸ made.found⟩

theorem Prepared.grows {st' : State} {io' io'' : StepIo} {t' t'' : Past} {id : String}
    (prepared : Prepared self app dep st name id lease st' io' t') (grows : t' ⊆ t'') (same : Same io' io'') :
    Prepared self app dep st name id lease st' io'' t'' :=
  { prepared with made := prepared.made.imp fun _ h => ⟨h.1, h.2.grows grows same⟩ }

/-- A container is made and remembered as the application's. -/
theorem createApplication_serves {post : String → State → StepIo → Past → Prop} (fits : Fits l app dep plans st io t)
    (leased : Leased io.ledger lease.hostPort) (unplanned : st.plannedLease = none)
    (ends : ∀ id st' io' t', t ⊆ t' → Fits l app dep plans st' io' t' → Prepared self app dep st name id lease st' io' t' →
      post id st' io' t') :
    Serves (Allowed l app dep) (createApplication self b name lease) post (Aborts l app dep plans) st io t := by
  refine serves_bind.mpr (createContainer_serves fits leased fun id spec st' io' t' grows fits marked created made _ => ?_)
  refine serves_bind.mpr (serves_modify.mpr ?_)
  have kept : st'.plannedLease = none := by
    obtain ⟨_, _, rfl⟩ := marked
    exact unplanned
  have same := marked.same
  refine ends id _ io' t' grows { fits with recorded := fun name' port' some => ?_, planned := ?_ } ?_
  · cases some
    obtain ⟨e, found, own, _⟩ := made.found
    exact ⟨e, found, own⟩
  · exact fits.planned
  · exact ⟨rfl, ⟨spec, created, made⟩, ⟨same.imageId, same.imageTag, same.restoring, same.rollback⟩, kept⟩

/-- A start ends with a container that was started. -/
abbrev Starts (self : DockerBackend) (l : Ledger) (app : ApplicationId) (dep : DeploymentId) (plans : Prop) (st : State)
    (containerPort : UInt16) (t : Past) (post : String → State → StepIo → Past → Prop) : Prop :=
  ∀ name id lease st' io' t', t ⊆ t' → Fits l app dep plans st' io' t' → Prepared self app dep st name id lease st' io' t' →
    Answered t' (.startContainer id) () → lease.containerPort = containerPort → post id st' io' t'

theorem replaceCollided_serves {id : String} {st' : State} {post : String → State → StepIo → Past → Prop}
    (fits : Fits l app dep plans st' io t) (prepared : Prepared self app dep st name id lease st' io t)
    (ends : Starts self l app dep plans st lease.containerPort t post) :
    Serves (Allowed l app dep) (replaceCollided self b lease name id) post (Aborts l app dep plans) st' io t := by
  obtain ⟨spec, _, made⟩ := prepared.made
  refine serves_bind.mpr (discardContainer_serves fits made.receipted made.found fun io₁ t₁ grows₁ fits₁ => ?_)
  refine serves_bind.mpr (releaseLease_serves fits₁ prepared.unplanned fun io₂ t₂ grows₂ fits₂ => ?_)
  refine serves_bind.mpr (occupancy_reads.fits fits₂ fun occ io₃ t₃ _ grows₃ _ fits₃ => ?_)
  refine serves_bind.mpr (serves_get.mpr (serves_bind.mpr (Reads.ofExcept.fits fits₃ ?_)))
  intro other io₄ t₄ taken grows₄ _ fits₄
  refine serves_bind.mpr (serves_modify.mpr ?_)
  have fits₄ := fits₄.memory { st' with replacedFrom := some lease.hostPort } rfl fun _ h => h
  refine serves_bind.mpr (leasePort_serves fits₄ fun io₅ t₅ grows₅ fits₅ leased => ?_)
  refine serves_bind.mpr (serves_deployment ?_)
  refine serves_bind.mpr (createApplication_serves fits₅ leased prepared.unplanned ?_)
  intro id' st₆ io₆ t₆ grows₆ fits₆ prepared₆
  have remade : Prepared self app dep st _ id' other st₆ io₆ t₆ :=
    { prepared₆ with
      made := prepared₆.made.imp fun _ h => ⟨h.1.same ⟨prepared.same.imageId, prepared.same.imageTag,
        prepared.same.restoring, prepared.same.rollback⟩, h.2⟩
      same := prepared.same.trans ⟨prepared₆.same.imageId, prepared₆.same.imageTag, prepared₆.same.restoring,
        prepared₆.same.rollback⟩ }
  obtain ⟨spec', _, made'⟩ := remade.made
  have grows : t ⊆ t₆ :=
    subset_trans (subset_trans (subset_trans (subset_trans (subset_trans grows₁ grows₂) grows₃.subset) grows₄.subset) grows₅) grows₆
  refine serves_bind.mpr (request_serves fits₆ (fun _ _ _ sub _ _ => made'.startable sub) ?_)
  intro answer io₇ t₇ grows₇ same₇ fits₇ answered
  cases answer with
  | ok value =>
    exact ends _ id' other st₆ io₇ t₇ (subset_trans grows grows₇) fits₇ (remade.grows grows₇ same₇) (answered () rfl)
      (reallocate_ok taken).1
  | error e => exact serves_bind.mpr (attachLogs_reads.fits fits₇ fun _ _ _ _ _ _ fits _ => fits)

theorem afterStart_serves {id : String} {st' : State} {answer : Except ApiError Unit}
    {post : String → State → StepIo → Past → Prop} (fits : Fits l app dep plans st' io t)
    (prepared : Prepared self app dep st name id lease st' io t)
    (answered : answer = .ok () → Answered t (.startContainer id) ())
    (ends : Starts self l app dep plans st lease.containerPort t post) :
    Serves (Allowed l app dep) (afterStart self b lease name id answer) post (Aborts l app dep plans) st' io t := by
  cases answer with
  | ok value => exact ends name id lease st' io t (List.Subset.refl t) fits prepared (answered rfl) rfl
  | error e =>
    unfold afterStart
    dsimp only
    cases e.isPortCollision with
    | true => exact replaceCollided_serves fits prepared ends
    | false => exact serves_bind.mpr (attachLogs_reads.fits fits fun _ _ _ _ _ _ fits _ => fits)

theorem confirmRunning_conducts {id : String} {post : Unit → State → StepIo → Past → Prop} (fits : Fits l app dep plans st io t)
    (ends : ∀ io' t', Grows t t' → Same io io' → Fits l app dep plans st io' t' → post () st io' t') :
    Serves (Allowed l app dep) (confirmRunning self b id) post (Aborts l app dep plans) st io t := by
  refine serves_bind.mpr (call_fits fits trivial fun found io₁ t₁ grows₁ same₁ fits₁ => ?_)
  cases found.any (·.running) with
  | true => exact ends io₁ t₁ grows₁ same₁ fits₁
  | false => exact serves_bind.mpr (attachLogs_reads.fits fits₁ fun _ _ _ _ _ _ fits _ => fits)

/-- The container port that a start begins with. -/
def startingPort (self : DockerBackend) (st : State) : UInt16 :=
  (st.plannedLease.map (·.containerPort)).getD self.cfg.containerPort

theorem startNew_serves {post : String → State → StepIo → Past → Prop} (fits : Fits l app dep plans st io t)
    (ends : Starts self l app dep plans st (startingPort self st) t post) :
    Serves (Allowed l app dep) (startNew self) (fun _ st' io' t' => ∃ id, post id st' io' t') (Aborts l app dep plans) st io t := by
  refine serves_bind.mpr (stepBudget_reads.fits fits fun b io₁ t₁ _ grows₁ _ fits₁ => ?_)
  refine serves_bind.mpr (startingLease_serves fits₁ fun lease io₂ t₂ grows₂ fits₂ leased fresh planned => ?_)
  refine serves_bind.mpr (serves_deployment (serves_bind.mpr ?_))
  refine createApplication_serves fits₂ leased rfl fun id st₃ io₃ t₃ grows₃ fits₃ prepared => ?_
  have prepared : Prepared self app dep st _ id lease st₃ io₃ t₃ :=
    { prepared with
      made := prepared.made.imp fun _ h => ⟨h.1.same ⟨rfl, rfl, rfl, rfl⟩, h.2⟩
      same := ⟨prepared.same.imageId, prepared.same.imageTag, prepared.same.restoring, prepared.same.rollback⟩ }
  obtain ⟨spec, _, made⟩ := prepared.made
  refine serves_bind.mpr (request_serves fits₃ (fun _ _ _ sub _ _ => made.startable sub) ?_)
  intro answer io₄ t₄ grows₄ same₄ fits₄ answered
  have port : lease.containerPort = startingPort self st := by
    unfold startingPort
    cases was : st.plannedLease with
    | none => exact fresh was
    | some other => rw [planned other was]; rfl
  refine serves_bind.mpr (afterStart_serves fits₄ (prepared.grows grows₄ same₄) (answered ()) ?_)
  intro name' id' lease' st₅ io₅ t₅ grows₅ fits₅ prepared₅ started port'
  refine confirmRunning_conducts fits₅ fun io₆ t₆ grows₆ same₆ fits₆ => ⟨id', ?_⟩
  exact ends name' id' lease' st₅ io₆ t₆
    (subset_trans (subset_trans (subset_trans (subset_trans (subset_trans grows₁.subset grows₂) grows₃) grows₄) grows₅) grows₆.subset) fits₆
    (prepared₅.grows grows₆.subset same₆) (started.mono grows₆.subset) (port'.trans port)

/-! ## The restoration -/

variable {previous : PreviousRelease} {c : ReleaseConfig}

/-- A failure inside the restoration is its result, unless a write failed. -/
theorem judged_conducts {e : StepError} {fallback : Reason} (aborts : Aborts l app dep plans e st io t) :
    Conducts l app dep plans (judged e fallback) st io t := by
  unfold judged
  cases fatal : e.fatal with
  | some broken => exact fun none => nomatch fatal.symm.trans none
  | none => exact serves_bind.mpr (pushLine_reads.fits (aborts fatal) fun _ _ _ _ _ _ fits => fits)

theorem startRestored_conducts {id : String} {spec : CreateSpec} (fits : Fits l app dep plans st io t)
    (made : Made app dep name id spec io t) : Conducts l app dep plans (startRestored self b c name id) st io t := by
  refine serves_bind.mpr (request_serves fits (fun _ _ _ sub _ _ => made.startable sub) ?_)
  intro answer io₁ t₁ _ _ fits₁ _
  cases answer with
  | error e => exact serves_bind.mpr (attachLogs_reads.fits fits₁ fun _ _ _ _ _ _ fits => fits)
  | ok value =>
    refine serves_bind.mpr (serves_attempt.mpr ?_)
    refine health_reads.serves allowed_reads ?_ ?_
    · intro ev io₂ t₂ _ grows same
      exact restoreVerdict_reads.conducts (fits₁.grows grows same)
    · intro e io₂ t₂ grows same
      exact restoreVerdict_reads.conducts (fits₁.grows grows same)

theorem recreate_conducts (fits : Fits l app dep plans st io t) (leased : Leased io.ledger lease.hostPort) :
    Conducts l app dep plans (recreate self b c lease) st io t := by
  refine serves_bind.mpr (serves_deployment (serves_bind.mpr (serves_attempt.mpr ?_)))
  rw [fits.ofDep]
  refine (createContainer_serves fits leased fun id spec st' io' t' grows fits marked created made _ => ?_).mono
    (fun _ _ _ _ => id) fun e st' io' t' aborts => judged_conducts aborts
  exact startRestored_conducts fits made

theorem leaseHolder_leased {ledger : Ledger} {port : UInt16} {d : DeploymentId} (holder : leaseHolder ledger port = some d) :
    Leased ledger port := by
  obtain ⟨e, found, _⟩ := Option.map_eq_some_iff.mp holder
  have holds := List.find?_some found
  simp only [Bool.and_eq_true, decide_eq_true_eq, Bool.not_eq_true'] at holds
  obtain ⟨⟨kind, named⟩, unreleased⟩ := holds
  exact ⟨e, List.mem_of_find?_eq_some found, by rw [StepIo.leaseKey, ← kind, ← named], unreleased⟩

theorem restoreOn_conducts {holder : Option DeploymentId} (fits : Fits l app dep plans st io t)
    (held : ∀ d, holder = some d → Leased io.ledger c.hostPort) :
    Conducts l app dep plans (restoreOn self b previous c holder) st io t := by
  cases holder with
  | some d =>
    unfold restoreOn
    dsimp only
    cases (leaseOwners previous).contains d with
    | true => exact recreate_conducts fits (held d rfl)
    | false => exact serves_bind.mpr (pushLine_reads.fits fits fun _ _ _ _ _ _ fits => fits)
  | none =>
    refine serves_bind.mpr (serves_attempt.mpr ?_)
    refine (leasePort_serves fits fun io' t' _ fits leased => ?_).mono (fun _ _ _ _ => id)
      fun e st' io' t' aborts => judged_conducts aborts
    exact recreate_conducts fits leased

theorem restoreTrusted_conducts (fits : Fits l app dep plans st io t) :
    Conducts l app dep plans (restoreTrusted self b previous c app) st io t := by
  refine serves_bind.mpr (serves_ledger (serves_bind.mpr ?_))
  refine checkServingPort_reads.fits fits fun untrusted io₁ t₁ _ _ same fits₁ => ?_
  split
  · exact serves_bind.mpr (pushLine_reads.fits fits₁ fun _ _ _ _ _ _ fits => fits)
  · exact restoreOn_conducts fits₁ fun d holder => same.ledger ▸ leaseHolder_leased holder

theorem restoreInner_conducts (fits : Fits l app dep plans st io t) :
    Conducts l app dep plans (restoreInner self b previous c) st io t := by
  refine serves_bind.mpr (request_serves fits (fun _ _ _ _ _ _ => trivial) fun answer io₁ t₁ _ _ fits₁ _ => ?_)
  refine serves_bind.mpr (serves_app ?_)
  rw [fits₁.ofApp]
  split
  · exact serves_bind.mpr (pushLines_reads.fits fits₁ fun _ _ _ _ _ _ fits => fits)
  · exact restoreTrusted_conducts fits₁

theorem restorePrevious_conducts {budgetMs : Nat} (fits : Fits l app dep plans st io t) :
    Conducts l app dep plans (restorePrevious self previous budgetMs) st io t := by
  unfold restorePrevious
  cases previous.config with
  | none => exact fits
  | some c =>
    refine serves_bind.mpr (serves_modify.mpr ?_)
    have fits := fits.memory { st with restoring := some previous } rfl fun _ h => h
    refine serves_bind.mpr (serves_attempt.mpr ((restoreInner_conducts fits).mono ?_ ?_))
    · intro result st' io' t' fits
      exact serves_bind.mpr (serves_modify.mpr (fits.memory { st' with restoring := none } rfl fun _ h => h))
    · intro e st' io' t' aborts
      refine serves_bind.mpr (serves_modify.mpr fun plain => ?_)
      exact (aborts plain).memory { st' with restoring := none } rfl fun _ h => h

/-! ## All calls -/

/-- Every call follows the rule of the custody, and leaves the memory in accord with the ledger. -/
theorem perform_conducts {c : Call} (due : c = .planRelease → plans) (fits : Fits l app dep plans st io t) : Conducts l app dep plans (perform self c) st io t := by
  cases c with
  | prepareSource => exact prepareSource_conducts fits
  | build => exact build_conducts fits
  | preliminaryCheck => exact preliminaryCheck_conducts fits
  | planRelease => exact planRelease_conducts (due rfl) fits
  | stopCurrent previous => exact stopCurrent_conducts fits
  | startNew =>
    have starts : Serves (Allowed l app dep) (startNew self) (fun _ st' io' t' => ∃ _ : String, Fits l app dep plans st' io' t')
        (Aborts l app dep plans) st io t :=
      startNew_serves fits fun _ _ _ _ _ _ _ fits _ _ _ => fits
    exact starts.mono (fun _ _ _ _ ⟨_, fits⟩ => fits) fun _ _ _ _ aborts => aborts
  | finalCheck => exact finalCheck_conducts fits
  | stopNew => exact stopNew_conducts fits
  | restoreBlockers previous => exact restoreBlockers_reads.conducts fits
  | restorePrevious previous budgetMs => exact restorePrevious_conducts fits

end

end Harpoon.Docker
