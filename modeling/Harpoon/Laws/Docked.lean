import Harpoon.Docker.Runs
import Harpoon.Laws.Conduct
import Harpoon.Laws.Turns

/-!
# The backend's memory over a run

Whatever the engine asks between two calls, what the backend remembers stands in the ledger it is handed
with the next call, as long as another call can follow. So every call of every run follows the rule of the
custody.
-/

namespace Harpoon.Docker

open Interact Deploy Deploy.Ports Process

variable {self : DockerBackend} {app : ApplicationId} {dep : DeploymentId} {st₀ st st' : State} {l₀ l : Ledger}
  {h k : History StepSig} {io io' : StepIo} {α : Type}

/-- A state that a backend is made with. -/
def State.Initial (st : State) : Prop := ∃ rollback, st = { State.new with rollback := rollback }

/-- Whose turn it is after the history. -/
def turnOf (h : History StepSig) : Turn := (engineSide h).seen Turn.see Turn.start

/-- What the backend remembers, against the ledger. -/
structure Remembers (app : ApplicationId) (dep : DeploymentId) (t : Turn) (st : State) (l : Ledger) : Prop where
  recorded : ∀ name port, st.app = some (name, port) → ∃ e, l.find dep ⟨.container, name⟩ = some e ∧ e.app = app
  planned : ∀ lease, st.plannedLease = some lease → t.planned = true ∧ Leased l lease.hostPort

theorem Remembers.initial {t : Turn} (initial : st.Initial) : Remembers app dep t st l := by
  obtain ⟨rollback, rfl⟩ := initial
  exact ⟨fun _ _ some => (nomatch some), fun _ some => (nomatch some)⟩

theorem Fits.remembers {t : Turn} {plans : Prop} {p : Past} (fits : Fits l app dep plans st io p)
    (due : plans → t.planned = true) : Remembers app dep t st io.ledger :=
  ⟨fits.recorded, fun lease some => ⟨due (fits.planned lease some).1, (fits.planned lease some).2⟩⟩

/-- At the beginning of a call. -/
theorem Remembers.fits {t : Turn} {c : Call} (remembers : Remembers app dep t st io.ledger) (ofApp : io.app = app)
    (ofDep : io.dep = dep) : Fits io.ledger app dep ((t.called c).planned = true) st io [] where
  ledger := rfl
  ofApp := ofApp
  ofDep := ofDep
  intact := fun _ mem => nomatch mem
  recorded := remembers.recorded
  planned := fun lease some => by
    obtain ⟨planned, leased⟩ := remembers.planned lease some
    refine ⟨?_, leased⟩
    rw [Turn.called, planned, Bool.true_or]

/-! ## What a call leaves -/

theorem engineSide_append : engineSide (h ++ k) = engineSide h ++ engineSide k := List.filterMap_append

theorem turnOf_append : turnOf (h ++ k) = (engineSide k).seen Turn.see (turnOf h) := by
  rw [turnOf, engineSide_append, History.seen, List.foldl_append]
  rfl

/-- While a call is open, what is allowed there takes no turn. -/
theorem turn_open {rule : Past → StepOp → Prop} {t : Turn} {p : Past} (inCall : t.inCall = true)
    (only : ∀ p op, rule p (.engine op) → ScriptOp op) (lawful : Lawful Past.see rule p k) :
    (engineSide k).seen Turn.see t = t := by
  induction k generalizing p with
  | nil => rfl
  | cons e k ih =>
    obtain ⟨op, answer⟩ := e
    cases op with
    | host op => exact ih lawful.2
    | engine op =>
      have script := only p op lawful.1
      have stays : t.see ⟨op, answer⟩ = t := by
        cases op with
        | record r => exact if_neg (by simp [inCall])
        | nowMs => rfl
        | _ => cases script
      show (engineSide k).seen Turn.see (t.see ⟨op, answer⟩) = t
      rw [stays]
      exact ih lawful.2

theorem allowed_scripts {p : Past} {op : EngineOp} (allowed : Allowed l app dep p (.engine op)) : ScriptOp op := by
  cases op with
  | nowMs | record _ => trivial
  | _ => cases allowed

/-! ## The runtime, asked by the engine -/

/-- Operations that bring nothing about, and the clock. -/
def HostOnly (_ : Past) : StepOp → Prop
  | .engine .nowMs => True
  | .engine _ => False
  | .host (.api (.createContainer _ _) _) | .host (.api (.startContainer _) _) | .host (.runBuild _ _) => False
  | .host _ => True

theorem hostOnly_reads : LetsRead HostOnly := by
  refine ⟨fun _ => trivial, fun t op quiet => ?_⟩
  cases op with
  | api op left => cases op <;> first | exact quiet.elim | trivial
  | runBuild _ _ => exact quiet.elim
  | _ => trivial

/-- Such code takes no turn, wherever it stands. -/
theorem turn_hostOnly {t : Turn} {p : Past} (lawful : Lawful Past.see HostOnly p k) : (engineSide k).seen Turn.see t = t := by
  induction k generalizing p with
  | nil => rfl
  | cons e k ih =>
    obtain ⟨op, answer⟩ := e
    cases op with
    | host op => exact ih lawful.2
    | engine op =>
      cases op with
      | nowMs => exact ih lawful.2
      | _ => cases lawful.1

theorem turnOf_hostOnly {e : Event EngineSig} {p : Past} (lawful : Lawful Past.see HostOnly p k) (other : ∀ t, Turn.see t e = t) :
    turnOf (h ++ (k ++ [engines e])) = turnOf h := by
  rw [turnOf_append, engineSide_append, History.seen, List.foldl_append]
  have same : List.foldl Turn.see (turnOf h) (engineSide k) = turnOf h := turn_hostOnly lawful
  rw [same]
  exact other (turnOf h)

theorem listResources_reads : Reads (fun _ => True) (listResources self) :=
  .bind (.asks trivial) fun _ _ => .bind Reads.ofExcept fun _ _ => .bind (.asks trivial) fun _ _ =>
    .bind Reads.ofExcept fun _ _ => .pure trivial

/-- Listing and removing change nothing of the backend's. -/
theorem listResources_same {p : Past} :
    Serves HostOnly (listResources self) (fun _ st' _ _ => st' = st) (fun _ st' _ _ => st' = st) st io p :=
  listResources_reads.serves hostOnly_reads (fun _ _ _ _ _ _ => rfl) fun _ _ _ _ _ => rfl

theorem removeResource_same {req : RemoveRequest} {p : Past} :
    Serves HostOnly (removeResource self req) (fun _ st' _ _ => st' = st) (fun _ st' _ _ => st' = st) st io p := by
  have unwritten : Unwritten fun _ _ => True := ⟨fun _ _ _ => trivial, fun _ => trivial⟩
  refine removeResource_keeps hostOnly_reads unwritten trivial (fun _ _ _ _ _ _ _ => ⟨trivial, trivial⟩) ?_ ?_ ?_
  · exact fun _ _ _ _ _ _ _ => trivial
  · exact fun _ _ _ _ _ _ => rfl
  · exact fun _ _ _ _ _ => rfl

/-- Code that a history was followed of: the state it leaves, and that the history was lawful. -/
theorem served_same {x : Docker α} {res : Except StepError α}
    (same : Serves HostOnly x (fun _ st' _ _ => st' = st) (fun _ st' _ _ => st' = st) st io [])
    (served : Program.Follows (serving x st io) k (.done (.ok (res, st'), io'))) :
    st' = st ∧ Lawful Past.see HostOnly [] k := by
  obtain ⟨ended, lawful⟩ := Program.Obeys.follows same served
  refine ⟨?_, lawful⟩
  cases res with
  | ok value => exact ended
  | error e => exact ended

/-! ## The run -/

/-- Between two calls: nothing of the backend's is open, and while another call can follow, its memory
stands in the ledger. -/
structure Settled (app : ApplicationId) (dep : DeploymentId) (t : Turn) (st : State) (l : Ledger) : Prop where
  idle : t.inCall = false
  memory : t.shut = false → Remembers app dep t st l

/-- A record of the engine's, while it may still call. -/
theorem Settled.record {t : Turn} {r : LedgerRecord} {w : Written} (settled : Settled app dep t st l) :
    Settled app dep (t.see ⟨.record r, w⟩) st (ledgerAfter l ⟨.record r, w⟩) := by
  have seen : t.see ⟨.record r, w⟩ =
      if !t.inCall && (t.planned || !w.isAcknowledged) then { t with shut := true } else t := rfl
  rw [seen, settled.idle]
  cases ends : t.planned || !w.isAcknowledged with
  | true => exact ⟨rfl, fun no => nomatch no⟩
  | false =>
    obtain ⟨planned, written⟩ := Bool.or_eq_false_iff.mp ends
    refine ⟨settled.idle, fun opened => ?_⟩
    have before := settled.memory opened
    have unplanned : ∀ lease, st.plannedLease ≠ some lease := fun lease some => by
      cases planned.symm.trans (before.planned lease some).1
    cases w with
    | failed e stored => cases written
    | acknowledged =>
      refine ⟨fun name port made => ?_, fun lease some => absurd some (unplanned lease)⟩
      obtain ⟨e, found, own⟩ := before.recorded name port made
      show ∃ e, (l.apply r).2.find dep ⟨.container, name⟩ = some e ∧ e.app = app
      rcases l.apply_spec r with ⟨x, refused⟩ | ⟨l', accepted, applied⟩
      · rw [refused]
        exact ⟨e, found, own⟩
      · obtain ⟨e', found', stays⟩ := Ledger.find_applied found applied
        rw [accepted]
        exact ⟨e', found', stays.app.trans own⟩

theorem Settled.answer {t : Turn} {e : Event EngineSig} (settled : Settled app dep t st l) (answers : Answers self st e) :
    Settled app dep (t.see e) st (ledgerAfter l e) := by
  obtain ⟨op, answer⟩ := e
  cases op with
  | record r => exact settled.record
  | call _ _ | result _ | listResources | removeResource _ => exact answers.elim
  | pinnedConfig => exact ⟨settled.idle, fun opened => ⟨(settled.memory opened).recorded, (settled.memory opened).planned⟩⟩
  | nowMs | cancel | confirm _ | persist _ | acceptsSimulatedEvidence | supportsCutover => exact settled

/-- Once no call follows, it stays so. -/
theorem shut_stays {t : Turn} {h : History EngineSig} (shut : t.shut = true) : (h.seen Turn.see t).shut = true := by
  induction h generalizing t with
  | nil => exact shut
  | cons e h ih =>
    refine ih (t := t.see e) ?_
    obtain ⟨op, answer⟩ := e
    cases op with
    | record r =>
      show (if !t.inCall && (t.planned || !answer.isAcknowledged) then { t with shut := true } else t).shut = true
      split
      · rfl
      · exact shut
    | result c => exact Bool.or_eq_true_iff.mpr (.inl shut)
    | _ => exact shut

/-- What the served call leaves: the memory in accord with the ledger, unless a write failed. -/
theorem served_fits {t : Turn} {c : Call} {res : Except StepError c.Ret}
    (remembers : Remembers app dep t st io.ledger) (ofApp : io.app = app) (ofDep : io.dep = dep)
    (served : Program.Follows (serving (perform self c) st io) k (.done (.ok (res, st'), io'))) :
    Lawful Past.see (Allowed io.ledger app dep) [] k ∧
      (fatalIn res = false → Fits io.ledger app dep ((t.called c).planned = true) st' io' k.reverse) := by
  have due : c = .planRelease → (t.called c).planned = true := by
    rintro rfl
    simp [Turn.called]
  have conducts : Conducts io.ledger app dep ((t.called c).planned = true) (perform self c) st io [] :=
    perform_conducts due (remembers.fits ofApp ofDep)
  obtain ⟨ended, lawful⟩ := Program.Obeys.follows conducts served
  rw [seen_eq, List.append_nil] at ended
  refine ⟨lawful, fun plain => ?_⟩
  cases res with
  | ok value => exact ended
  | error e => exact ended (by simpa [fatalIn] using plain)

/-- The turn after a whole call. -/
theorem turn_call {t : Turn} {c : Call} {script : Script} {res : Except StepError c.Ret} {budgetMs : Nat} :
    (engineSide (engines ⟨.call c budgetMs, script⟩ :: k ++ [engines ⟨.result c, res⟩])).seen Turn.see t =
      ((engineSide k).seen Turn.see { t.called c with inCall := true }).see ⟨.result c, res⟩ := by
  rw [engineSide_append, History.seen, List.foldl_append]
  rfl

/-- If a call may follow, the one before did not lose a write, and none before that. -/
theorem call_open {t : Turn} {c : Call} {script : Script} {res : Except StepError c.Ret} {budgetMs : Nat}
    (opened : ((engineSide (engines ⟨.call c budgetMs, script⟩ :: k ++ [engines ⟨.result c, res⟩])).seen Turn.see t).shut =
      false) : t.shut = false ∧ fatalIn res = false := by
  rw [turn_call] at opened
  have parts : ((engineSide k).seen Turn.see { t.called c with inCall := true }).shut = false ∧ fatalIn res = false :=
    Bool.or_eq_false_iff.mp opened
  refine ⟨?_, parts.2⟩
  cases shut : t.shut with
  | false => rfl
  | true => exact absurd (shut_stays (t := { t.called c with inCall := true }) shut) (by rw [parts.1]; decide)

/-- A whole call: its beginning, what the backend asked, and its result. -/
theorem Settled.call {t : Turn} {c : Call} {script : Script} {res : Except StepError c.Ret}
    (settled : Settled app dep t st io.ledger) (ofApp : io.app = app) (ofDep : io.dep = dep)
    (served : Program.Follows (serving (perform self c) st io) k (.done (.ok (res, st'), io'))) :
    Settled app dep
      ((engineSide (engines ⟨.call c io.budgetMs, script⟩ :: k ++ [engines ⟨.result c, res⟩])).seen Turn.see t)
      st' io'.ledger := by
  refine ⟨turn_call ▸ rfl, fun opened => ?_⟩
  obtain ⟨before, plain⟩ := call_open opened
  obtain ⟨lawful, after⟩ := served_fits (settled.memory before) ofApp ofDep served
  rw [turn_call, turn_open rfl (fun _ _ => allowed_scripts) lawful]
  have remembers := (after plain).remembers id
  exact ⟨remembers.recorded, remembers.planned⟩

/-- The run lemma. -/
theorem Docked.settled (initial : st₀.Initial) (docked : Docked self app dep st₀ l₀ h st l) :
    Settled app dep (turnOf h) st l := by
  induction docked with
  | start => exact ⟨rfl, fun _ => .initial initial⟩
  | call _ ofApp ofDep served ih =>
    rw [turnOf_append]
    exact ih.call ofApp ofDep served
  | ask _ answers ih =>
    rw [turnOf_append]
    exact ih.answer answers
  | list _ served ih =>
    obtain ⟨rfl, lawful⟩ := served_same listResources_same served
    rw [turnOf_hostOnly lawful fun _ => rfl]
    exact ih
  | remove _ served ih =>
    obtain ⟨rfl, lawful⟩ := served_same removeResource_same served
    rw [turnOf_hostOnly lawful fun _ => rfl]
    exact ih

/-! ## A call under way -/

section

variable {d : Deployment} {cfg : RunConfig} {c : Call}
  {left : Program StepSig (Except Empty (Except StepError c.Ret × State) × StepIo)}

theorem Driven.lawful {g : History EngineSig} (driven : Driven d cfg g) : Lawful Turn.see Turn.Rule Turn.start g := by
  cases driven with
  | run follows => exact run_turns follows
  | recover follows => exact recover_turns follows

theorem Underway.remembers (underway : Underway self d cfg st₀ h c st io k left) (initial : st₀.Initial) :
    Remembers d.applicationId d.id (turnOf h) st io.ledger := by
  obtain ⟨script, driven⟩ := underway.driven
  exact (underway.docked.settled initial).memory (Lawful.at driven.lawful).1

/-- A call of a run follows the rule of the custody, as far as it went. -/
theorem Underway.lawful (underway : Underway self d cfg st₀ h c st io k left) (initial : st₀.Initial) :
    Lawful Past.see (Allowed io.ledger d.applicationId d.id) [] k := by
  have due : c = .planRelease → ((turnOf h).called c).planned = true := by
    rintro rfl
    simp [Turn.called]
  have fits := (underway.remembers initial).fits (c := c) underway.ofApp underway.ofDep
  have conducts : Conducts io.ledger d.applicationId d.id _ (perform self c) st io [] := perform_conducts due fits
  exact (Program.Obeys.follows conducts underway.served).2

end

end Harpoon.Docker
