import Harpoon.Laws.Docked

/-!
# What is stopped and removed

Docker may answer anything, and any object may be replaced, renamed or relabelled between two calls.
Still every stop and every removal is of an object that was read back under its id in the same operation
and was what the ledger says of it; and a retained image is deleted only when nothing else holds it.
-/

namespace Harpoon.Docker

open Interact Deploy Deploy.Ports Process

/-- The container that the operation stops or removes. -/
def StepOp.discards : StepOp → Option String
  | .host (.api (.stopContainer id _) _) | .host (.api (.removeContainer id) _) => some id
  | _ => none

/-- The image that the operation deletes. -/
def StepOp.deletes : StepOp → Option String
  | .host (.api (.removeImage id) _) => some id
  | _ => none

/-- Each stop and removal of the history is of an object of which the past before it says so. -/
structure RemovesOnly (container image : Past → String → Prop) (k : History StepSig) : Prop where
  containers : ∀ before e rest id, k = before ++ e :: rest → e.op.discards = some id → container before.reverse id
  images : ∀ before e rest id, k = before ++ e :: rest → e.op.deletes = some id → image before.reverse id

/-- Docker reported the image under its id, with the three labels, under no other tag and no digest, and of
each container it lists an image that is known and is another one. -/
structure Exclusive (t : Past) (req : RemoveRequest) : Prop where
  image : ∃ img, Answered t (.imageInspect req.id) (some img) ∧ img.id = req.id ∧
    hasLabels img.labels req.app req.deployment = true ∧ (∀ tag ∈ img.tags, tag = req.name) ∧ img.repoDigests = []
  unused : ∃ containers, Answered t .listContainers containers ∧ ∀ c ∈ containers, c.imageId ≠ req.id ∧ c.imageId ≠ ""

/-- The rule that lets exactly these objects be stopped and removed. -/
def Removal (container image : Past → String → Prop) (t : Past) (op : StepOp) : Prop :=
  (∀ id, op.discards = some id → container t id) ∧ ∀ id, op.deletes = some id → image t id

section

variable {container image : Past → String → Prop} {t : Past} {k : History StepSig} {st : State} {io : StepIo} {α : Type}

theorem removal_reads : LetsRead (Removal container image) := by
  refine ⟨fun _ => ⟨fun _ no => (nomatch no), fun _ no => (nomatch no)⟩, fun t op quiet => ?_⟩
  cases op with
  | api op left =>
    cases op with
    | createContainer _ _ | startContainer _ | stopContainer _ _ | removeContainer _ | removeImage _ => exact quiet.elim
    | _ => exact ⟨fun _ no => (nomatch no), fun _ no => (nomatch no)⟩
  | _ => exact ⟨fun _ no => (nomatch no), fun _ no => (nomatch no)⟩

theorem removesOnly_of_lawful (lawful : Lawful Past.see (Removal container image) [] k) : RemovesOnly container image k where
  containers := by
    rintro before e rest id rfl discards
    have allowed := lawful.at
    rw [seen_eq, List.append_nil] at allowed
    exact allowed.1 id discards
  images := by
    rintro before e rest id rfl deletes
    have allowed := lawful.at
    rw [seen_eq, List.append_nil] at allowed
    exact allowed.2 id deletes

/-- Code that keeps the rule, wherever it is cut short. -/
theorem removesOnly_of_serves {x : Docker α} {left : Program StepSig (Except Empty (Except StepError α × State) × StepIo)}
    (serves : Serves (Removal container image) x (fun _ _ _ _ => True) (fun _ _ _ _ => True) st io [])
    (served : Program.Follows (serving x st io) k left) : RemovesOnly container image k :=
  removesOnly_of_lawful (Program.Obeys.follows serves served).2

/-! ## The calls -/

/-- What the custody allows, this rule does. -/
theorem removal_of_allowed {l : Ledger} {app : ApplicationId} {dep : DeploymentId} {op : StepOp}
    (allowed : Allowed l app dep t op) :
    Removal (fun t id => Verifiable (acked l t) t id) (fun _ _ => False) t op := by
  refine ⟨fun id discards => ?_, fun id deletes => ?_⟩
  · unfold StepOp.discards at discards
    split at discards
    · cases discards; exact allowed
    · cases discards; exact allowed
    · cases discards
  · unfold StepOp.deletes at deletes
    split at deletes
    · exact allowed
    · cases deletes

/-! ## The removal of an object -/

theorem unwritten_true : Unwritten fun _ _ => True := ⟨fun _ _ _ => trivial, fun _ => trivial⟩

theorem removeResource_removes {self : DockerBackend} {req : RemoveRequest} :
    Serves (Removal (fun t i => req.kind = .container ∧ i = req.id ∧ ReadBack t req.id req.name req.app req.deployment)
        fun t i => req.kind = .image ∧ i = req.id ∧ ImageReadBack t req.id req.app req.deployment)
      (removeResource self req) (fun _ _ _ _ => True) (fun _ _ _ _ => True) st io t := by
  refine removeResource_keeps removal_reads unwritten_true trivial ?_ ?_ (fun _ _ _ _ _ _ => trivial) fun _ _ _ _ _ => trivial
  · rintro kind io' t' left _ _ read
    constructor
    · exact ⟨fun i same => ⟨kind, (Option.some.inj same).symm, read⟩, fun _ no => (nomatch no)⟩
    · exact ⟨fun i same => ⟨kind, (Option.some.inj same).symm, read⟩, fun _ no => (nomatch no)⟩
  · rintro kind io' t' left _ _ read
    exact ⟨fun _ no => (nomatch no), fun i same => ⟨kind, (Option.some.inj same).symm, read⟩⟩

/-! ## A retained image -/

theorem judgeRetained_eligible {id tag : String} {app : ApplicationId} {dep : DeploymentId} {img : ImageInfo}
    (eligible : judgeRetained id tag app dep img = .eligible) :
    img.id = id ∧ hasLabels img.labels app dep = true ∧ (∀ other ∈ img.tags, other = tag) ∧ img.repoDigests = [] := by
  unfold judgeRetained at eligible
  dsimp only at eligible
  by_cases same : img.id ≠ id
  · rw [if_pos same] at eligible; cases eligible
  rw [if_neg same] at eligible
  cases labels : hasLabels img.labels app dep with
  | false => rw [labels] at eligible; cases eligible
  | true =>
    rw [labels] at eligible
    simp only [Bool.not_true, Bool.false_eq_true, if_false] at eligible
    cases others : (img.tags.filter (· ≠ tag)).isEmpty with
    | false => rw [others] at eligible; cases eligible
    | true =>
      rw [others] at eligible
      simp only [Bool.not_true, Bool.false_eq_true, if_false] at eligible
      cases digests : img.repoDigests.isEmpty with
      | false => rw [digests] at eligible; cases eligible
      | true =>
        refine ⟨Decidable.not_not.mp same, rfl, fun other mem => ?_, List.isEmpty_iff.mp digests⟩
        have none := List.filter_eq_nil_iff.mp (List.isEmpty_iff.mp others) other mem
        simpa using none

theorem judgeUsers_eligible {id : String} {containers : List ContainerSummary}
    (eligible : judgeUsers id containers = .eligible) : ∀ c ∈ containers, c.imageId ≠ id ∧ c.imageId ≠ "" := by
  unfold judgeUsers at eligible
  dsimp only at eligible
  cases users : (containers.filter (·.imageId = id)).isEmpty with
  | false => rw [users] at eligible; cases eligible
  | true =>
    rw [users] at eligible
    simp only [Bool.not_true, Bool.false_eq_true, if_false] at eligible
    cases unknown : (containers.filter (·.imageId.isEmpty)).isEmpty with
    | false => rw [unknown] at eligible; cases eligible
    | true =>
      intro c mem
      have notUser := List.filter_eq_nil_iff.mp (List.isEmpty_iff.mp users) c mem
      have known := List.filter_eq_nil_iff.mp (List.isEmpty_iff.mp unknown) c mem
      exact ⟨by simpa using notUser, fun empty => known (by rw [empty]; rfl)⟩

variable {self : DockerBackend} {req : RemoveRequest}

/-- A deletion once the image was assessed. -/
theorem removeRetained_removes {verdict : ImageVerdict} (assessed : verdict = .eligible → Exclusive t req) :
    Serves (Removal (fun _ _ => False) fun t i => i = req.id ∧ Exclusive t req)
      (removeRetained self req verdict) (fun _ _ _ _ => True) (fun _ _ _ _ => True) st io t := by
  cases verdict with
  | absent | ownership _ | notExclusive _ => trivial
  | eligible =>
    refine serves_bind.mpr (serves_host.mpr ⟨⟨fun _ no => (nomatch no), fun i same => ?_⟩, fun answer => ?_⟩)
    · exact ⟨(Option.some.inj same).symm, assessed rfl⟩
    · exact serves_ofExcept (fun _ _ => trivial) fun _ _ => trivial

theorem removeRetainedImage_removes :
    Serves (Removal (fun _ _ => False) fun t i => i = req.id ∧ Exclusive t req)
      (removeRetainedImage self req) (fun _ _ _ _ => True) (fun _ _ _ _ => True) st io t := by
  unfold removeRetainedImage
  split
  · refine serves_bind.mpr (serves_bind.mpr ?_)
    refine call_keeps removal_reads unwritten_true trivial (fun _ t' _ _ _ => removal_reads.2 t' _ trivial) ?_
      fun _ _ _ _ _ => trivial
    intro found io₁ t₁ _ _ inspected
    cases found with
    | none => exact removeRetained_removes fun no => nomatch no
    | some img =>
      cases judged : judgeRetained req.id req.name req.app req.deployment img with
      | absent | ownership _ | notExclusive _ =>
        simp only [Option.map_some, judged]
        exact removeRetained_removes fun no => nomatch no
      | eligible =>
        simp only [Option.map_some, judged]
        refine serves_bind.mpr (call_keeps removal_reads unwritten_true trivial
          (fun _ t' _ _ _ => removal_reads.2 t' _ trivial) ?_ fun _ _ _ _ _ => trivial)
        intro containers io₂ t₂ grows₂ _ listed
        refine removeRetained_removes fun unused => ⟨⟨img, inspected.mono grows₂, judgeRetained_eligible judged⟩, ?_⟩
        exact ⟨containers, listed, judgeUsers_eligible unused⟩
  · trivial

end

/-! ## Nothing else -/

/-- In every run, whatever Docker answers: a stop or a removal is of the container of an entry that stands in
the ledger, read back in the same call, and a call deletes no image. A removal of a recorded object stops,
removes or deletes that object alone, read back in the same operation. A retained image is deleted only if it
was read back and nothing else holds it. -/
theorem nothing_unverified_is_removed :
    (∀ {self : DockerBackend} {d : Deployment} {cfg : RunConfig} {st₀ st : State} {h k : History StepSig} {c : Call}
        {io : StepIo} {left}, st₀.Initial → Underway self d cfg st₀ h c st io k left →
      RemovesOnly (fun t id => Verifiable (acked io.ledger t) t id) (fun _ _ => False) k) ∧
    (∀ {self : DockerBackend} {e : Entry} {id : String} {st : State} {io : StepIo} {k : History StepSig} {left},
      Program.Follows (serving (removeResource self (requestFor e id)) st io) k left →
      RemovesOnly (fun t i => e.key.kind = .container ∧ i = id ∧ ReadBack t id e.key.name e.app e.deployment)
        (fun t i => e.key.kind = .image ∧ i = id ∧ ImageReadBack t id e.app e.deployment) k) ∧
    ∀ {self : DockerBackend} {req : RemoveRequest} {st : State} {io : StepIo} {k : History StepSig} {left},
      Program.Follows (serving (removeRetainedImage self req) st io) k left →
      RemovesOnly (fun _ _ => False) (fun t i => i = req.id ∧ Exclusive t req) k := by
  refine ⟨fun {self d cfg st₀ st h k c io left} initial underway => ?_, fun {self e id st io k left} served => ?_, fun served => ?_⟩
  · have lawful := underway.lawful initial
    exact removesOnly_of_lawful (lawful_iff.mpr fun before e rest split =>
      removal_of_allowed (lawful_iff.mp lawful before e rest split))
  · have removes : Serves _ (removeResource self (requestFor e id)) (fun _ _ _ _ => True) (fun _ _ _ _ => True) st io [] :=
      removeResource_removes
    exact removesOnly_of_serves removes served
  · exact removesOnly_of_serves removeRetainedImage_removes served

/-! ## A removal

A recorded container that runs is removed, and Docker does as it is asked. -/

/-- Docker as it stands: one image and one container, whatever is asked. -/
def steadyValue (img : ImageInfo) (info : ContainerInfo) : (op : ApiOp) → op.Value
  | .ping | .startContainer _ => ()
  | .imageInspect _ => some img
  | .containerInspect _ => some info
  | .listContainers | .listImages | .configuredHostPorts _ => []
  | .createContainer _ _ => .created info.id
  | .stopContainer _ _ | .removeContainer _ | .removeImage _ => true
  | .logs _ _ _ => ⟨"", false⟩

/-- Surroundings in which nothing fails. -/
def steady (img : ImageInfo) (info : ContainerInfo) : (op : HostOp) → op.Answer
  | .api op _ => .ok (steadyValue img info op)
  | .elapsed => 0
  | .random => .ok (List.replicate 16 7)
  | .isListening _ | .iidfileExists _ => false
  | .confine => .ok ⟨"/app", "FROM scratch\n", []⟩
  | .contextSize _ => .ok 1
  | .freeBytes | .guestFreeBytes => .ok 1000000000000
  | .createScratch | .provePath _ _ _ | .verifyForwarder _ => .ok ()
  | .snapshot _ => .ok ⟨"/scratch/1", 1, 1, []⟩
  | .removeSnapshot _ | .sweepSecrets | .dropSecretFiles => ()
  | .readDockerfile _ => .ok "FROM scratch\n"
  | .takeIidfile _ => .ok img.id
  | .secretFiles _ _ => .ok []
  | .runBuild _ _ => ([], .ok ())
  | .runHealth _ => ⟨[⟨0, .status 200, true⟩, ⟨1, .status 200, true⟩], .healthy, 2, 1, false, none, none⟩

/-- Every write is acknowledged. -/
def writing : (op : EngineOp) → op.Answer
  | .nowMs => 0
  | .cancel | .acceptsSimulatedEvidence => false
  | .confirm _ | .supportsCutover => true
  | .persist _ | .record _ => .acknowledged
  | .call _ _ => .done ()
  | .result _ => .error (.new "")
  | .listResources => .ok []
  | .removeResource _ => .ok .removed
  | .pinnedConfig => none

def steadily (img : ImageInfo) (info : ContainerInfo) : (op : StepOp) → op.Answer
  | .engine op => writing op
  | .host op => steady img info op

namespace Removed

def app : ApplicationId := ⟨1#128⟩

def dep : DeploymentId := ⟨2#128⟩

def img : ImageInfo := ⟨"sha256:1", Labels.forDeployment app dep, [], [], []⟩

def info : ContainerInfo := ⟨"c1", "hp-2", Labels.forDeployment app dep, true, "sha256:1", "", 0, []⟩

def entry : Entry := ⟨⟨.container, "hp-2"⟩, app, dep, .removeOnFailure, some "c1", .created, 0, false, 0⟩

def cfg : DockerConfig where
  scratchDir := "/scratch"
  containerPort := 8080
  health := .firstTest "/"
  attribution := .off
  liveGates := false
  healthMarker := none
  env := []
  buildTarget := none
  buildArgs := []
  buildSecrets := []
  runtimeSecrets := []
  snapshotId := none
  buildIdentity := none
  limits := ⟨268435456, 500000000, 64⟩
  maxContextBytes := 1000
  minFreeBytes := 1000
  cleanupTimeout := 1
  logTailLines := 10
  logMaxBytes := 1000
  enableReplacement := true

def backend : DockerBackend := ⟨cfg, ⟨[]⟩, false, false, false, false⟩

def io : StepIo := ⟨60000, .new .default .none, ⟨[entry]⟩, app, dep⟩

def removal : History StepSig :=
  ((serving (removeResource backend (requestFor entry "c1")) State.new io).play (steadily img info)).1

end Removed

open Removed in
/-- It is stopped and removed under its id, after it was read back. -/
theorem nothing_unverified_is_removed_container :
    removal.filterMap (·.op.discards) = ["c1", "c1"] ∧
      RemovesOnly (fun t i => ResourceKind.container = .container ∧ i = "c1" ∧ ReadBack t "c1" "hp-2" app dep)
        (fun t i => ResourceKind.container = .image ∧ i = "c1" ∧ ImageReadBack t "c1" app dep) removal :=
  ⟨by decide, nothing_unverified_is_removed.2.1 (e := entry) (Program.play_follows _ _)⟩

end Harpoon.Docker
