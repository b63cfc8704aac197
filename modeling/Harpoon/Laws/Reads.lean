import Harpoon.Laws.Served

/-!
# What only reads

The parts of the backend that change nothing of Docker's and write nothing to the ledger: occupancy, the
checks of images, the reading back of containers, health, logs.
-/

namespace Harpoon.Docker

open Interact Deploy Deploy.Ports Process

variable {self : DockerBackend} {α : Type} {P : α → Prop} {b : Budget} {st : State}

theorem Reads.ite {c : Prop} [Decidable c] {x y : Docker α} (yes : c → Reads P x) (no : ¬ c → Reads P y) :
    Reads P (if c then x else y) := by
  split
  next holds => exact yes holds
  next fails => exact no fails

theorem require_reads {ok : Bool} {e : StepError} : Reads (fun _ => ok = true) (require ok e) :=
  .ite (fun holds => .pure holds) fun _ => .throw

theorem present_reads {e : StepError} {o : Option α} : Reads (fun value => o = some value) (present e o) := by
  cases o with
  | some value => exact .pure rfl
  | none => exact .throw

theorem pushLine_reads {text : String} : Reads (fun _ => True) (pushLine text) := .uses trivial

theorem pushLines_reads {ls : List String} : Reads (fun _ => True) (pushLines ls) := by
  induction ls with
  | nil => exact .pure trivial
  | cons l ls ih => exact .bind pushLine_reads fun _ _ => ih

theorem pushChunks_reads {cs : List String} : Reads (fun _ => True) (pushChunks cs) := by
  induction cs with
  | nil => exact .pure trivial
  | cons c cs ih => exact .bind (.uses trivial) fun _ _ => ih

theorem left_reads {what : String} : Reads (fun _ => True) (b.left what) :=
  .bind (.asks trivial) fun _ _ => Reads.ofExcept.any

theorem request_reads {what : String} {op : ApiOp} (quiet : HostOp.IsQuiet (.api op 0)) :
    Reads (fun _ => True) (request b what op) := by
  refine .bind left_reads fun left _ => .asks ?_
  cases op <;> exact quiet

theorem call_reads {what name : String} {op : ApiOp} (quiet : HostOp.IsQuiet (.api op 0)) :
    Reads (fun _ => True) (call b what name op) :=
  .bind (request_reads quiet) fun _ _ => Reads.ofExcept.any

theorem randomHex_reads : Reads (fun _ => True) randomHex := .bind (.asks trivial) fun _ _ => Reads.ofExcept.any

theorem stepBudget_reads : Reads (fun _ => True) stepBudget := .bind (.uses trivial) fun _ _ => .pure trivial

/-! ## Ports -/

theorem stoppedPorts_reads {left : Nat} {c : ContainerSummary} : Reads (fun _ => True) (stoppedPorts left c) :=
  .ite (fun _ => .asks trivial) fun _ => .pure trivial

theorem portsOf_reads {left : Nat} {cs : List ContainerSummary} : Reads (fun _ => True) (portsOf left cs) := by
  induction cs with
  | nil => exact .pure trivial
  | cons c cs ih =>
    refine .bind stoppedPorts_reads fun configured _ => ?_
    cases configured with
    | error e => exact .pure trivial
    | ok own => exact .bind ih fun _ _ => .pure trivial

theorem publishedPorts_reads {left : Nat} : Reads (fun _ => True) (publishedPorts left) := by
  refine .bind (.asks trivial) fun listed _ => ?_
  cases listed with
  | error e => exact .pure trivial
  | ok list => exact portsOf_reads

theorem listening_reads {ps : List UInt16} : Reads (fun _ => True) (listening ps) := by
  induction ps with
  | nil => exact .pure trivial
  | cons p ps ih => exact .bind (.asks trivial) fun _ _ => .bind ih fun _ _ => .pure trivial

theorem occupancy_reads {purpose : Purpose} : Reads (fun _ => True) (occupancy purpose b) :=
  .bind left_reads fun _ _ => .bind publishedPorts_reads fun _ _ => .bind Reads.ofExcept fun _ _ =>
    .bind listening_reads fun _ _ => .bind (.uses trivial) fun _ _ => .pure trivial

/-- The port is for the purpose, on the application's own container port. -/
theorem allocatePort_reads {purpose : Purpose} :
    Reads (fun l => l.containerPort = self.cfg.containerPort) (allocatePort self purpose b) :=
  .bind occupancy_reads fun _ _ => Reads.ofExcept.imp fun _ done => (allocate_ok done).1

theorem receiptedId_reads {name : String} : Reads (fun _ => True) (receiptedId name) :=
  .bind (.uses trivial) fun _ _ => .bind (.uses trivial) fun _ _ => .pure trivial

/-! ## Objects -/

theorem checkImage_reads {app : ApplicationId} {o : Origin} : Reads (fun _ => True) (checkImage b app o) :=
  .bind (call_reads trivial) fun _ _ => .bind present_reads fun _ _ => .bind require_reads fun _ _ => require_reads.any

theorem logLines_reads {answer : Except ApiError LogText} : Reads (fun _ => True) (logLines answer) := by
  cases answer with
  | error e => exact pushLine_reads
  | ok l =>
    exact .bind pushLine_reads fun _ _ => .bind (.uses trivial) fun _ _ =>
      .ite (fun _ => pushLine_reads) fun _ => .pure trivial

theorem attachLogs_reads {id : String} : Reads (fun _ => True) (attachLogs self b id) := by
  refine .bind (.asks trivial) fun elapsed _ => ?_
  cases b.leftAfter elapsed "reading container logs" with
  | error e => exact .pure trivial
  | ok left => exact .bind (.asks trivial) fun _ _ => logLines_reads

/-! ## Health -/

variable {check : Check} {name what : String} {port containerPort : UInt16} {w : Watched} {ev : CheckEvidence}

theorem proveAgain_reads : Reads (fun _ => True) (proveAgain check containerPort w) := by
  refine .ite (fun _ => .bind (.asks trivial) fun answer _ => ?_) fun _ => .pure trivial
  cases answer <;> exact .pure trivial

theorem forwarderProblem_reads : Reads (fun _ => True) (forwarderProblem self port) := by
  refine .ite (fun _ => .bind (.asks trivial) fun answer _ => ?_) fun _ => .pure trivial
  cases answer <;> exact .pure trivial

theorem orAsk_reads {found : Option String} {next : Docker (Option String)} (reads : Reads (fun _ => True) next) :
    Reads (fun _ => True) (orAsk found next) := by
  cases found with
  | some m => exact .pure trivial
  | none => exact reads

/-- A check that passes returns the evidence of its probes, perhaps with a label. -/
theorem trustHealthy_reads :
    Reads (fun got => got = trusted self w ev) (trustHealthy self b check name containerPort what w ev) := by
  refine .bind (call_reads trivial) fun found _ => .get fun st => ?_
  refine .bind (orAsk_reads proveAgain_reads) fun proven _ => .bind (orAsk_reads forwarderProblem_reads) fun problem _ => ?_
  cases problem with
  | none => exact .pure rfl
  | some m => exact .bind attachLogs_reads fun _ _ => .throw

theorem concludeHealth_reads :
    Reads (fun got => got = trusted self w (evidenceOf check self.simulated w))
      (concludeHealth self b check name containerPort what w) := by
  unfold concludeHealth
  dsimp only
  cases w.changed with
  | some why => exact .bind attachLogs_reads fun _ _ => .throw
  | none => exact .ite (fun _ => trustHealthy_reads) fun _ => .bind attachLogs_reads fun _ _ => .throw

theorem health_reads {id : String} : Reads (fun _ => True) (health self b id name port what) := by
  refine .get fun st => ?_
  obtain ⟨base, containerPort⟩ := healthOf self st
  refine .bind Reads.ofExcept fun marker _ => .bind require_reads fun _ _ => .bind (call_reads trivial) fun found _ => ?_
  exact .bind Reads.ofExcept fun _ _ => .bind (.asks trivial) fun w _ => concludeHealth_reads.any

/-! ## Restoration -/

variable {app : ApplicationId} {own : List String} {previous : PreviousRelease} {c : ReleaseConfig}

theorem publishes_reads {c : ContainerSummary} : Reads (fun _ => True) (publishes b own port c) :=
  .ite (fun _ => .pure trivial) fun _ => .ite (fun _ => .pure trivial) fun _ => .bind (call_reads trivial) fun _ _ => .pure trivial

theorem noteHolder_reads {held : Bool} {c : ContainerSummary} :
    Reads (fun _ => True) (portBlockers.noteHolder app port held c) :=
  .ite (fun _ => .pure trivial) fun _ => .ite (fun _ => .pure trivial) fun _ =>
    .bind pushLine_reads fun _ _ => .pure trivial

theorem portBlockers_reads {cs : List ContainerSummary} : Reads (fun _ => True) (portBlockers b app own port cs) := by
  induction cs with
  | nil => exact .pure trivial
  | cons c cs ih =>
    exact .bind publishes_reads fun _ _ => .bind noteHolder_reads fun _ _ => .bind ih fun _ _ => .pure trivial

theorem restoreBlockers_reads : Reads (fun _ => True) (restoreBlockers self previous) := by
  unfold restoreBlockers
  cases previous.config with
  | none => exact .pure trivial
  | some c =>
    refine .ite (fun _ => .pure trivial) fun _ => ?_
    exact .bind stepBudget_reads fun _ _ => .bind (.uses trivial) fun _ _ => .bind (call_reads trivial) fun _ _ =>
      .bind (.uses trivial) fun _ _ => portBlockers_reads

theorem checkServingPort_reads {id : Option String} : Reads (fun _ => True) (checkServingPort b c id) := by
  cases id with
  | none => exact .pure trivial
  | some id => exact .bind (request_reads trivial) fun _ _ => .pure trivial

theorem restoreVerdict_reads {got : Except StepError CheckEvidence} : Reads (fun _ => True) (restoreVerdict got) := by
  cases got with
  | ok ev => exact .bind pushLine_reads fun _ _ => .pure trivial
  | error e => exact .ite (fun _ => .throw) fun _ => .bind pushLine_reads fun _ _ => .pure trivial

/-! ## The source -/

theorem checkGuest_reads {size : Nat} : Reads (fun _ => True) (checkGuest self size) :=
  .ite (fun _ => .bind (.asks trivial) fun _ _ => .bind Reads.ofExcept fun _ _ => pushLine_reads) fun _ => .pure trivial

theorem checkBaseImages_reads {imgs : List String} : Reads (fun _ => True) (checkBaseImages b imgs) := by
  induction imgs with
  | nil => exact .pure trivial
  | cons img imgs ih =>
    exact .bind (call_reads trivial) fun _ _ => .bind present_reads fun _ _ => .bind pushLine_reads fun _ _ => ih

theorem application_reads : Reads (fun _ => True) application := .get fun _ => present_reads.any

theorem applicationId_reads {name : String} : Reads (fun _ => True) (applicationId name) :=
  .bind receiptedId_reads fun _ _ => present_reads.any

end Harpoon.Docker
