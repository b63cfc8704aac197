import Harpoon.Laws.Rehearsal

/-!
# No orphans

What Harpoon causes to exist is named in the ledger before it can exist, and what may run is recorded by
its id before it can run. So whatever Docker answers, whichever write fails and wherever the process dies,
the ledger that is left on the disk names every object, by an entry that is unreleased unless the run
recorded that the object is gone.
-/

namespace Harpoon.Docker

open Interact Deploy Deploy.Ports Process

section

variable {self : DockerBackend} {app : ApplicationId} {dep : DeploymentId} {st₀ st st' : State} {l₀ l l' : Ledger}
  {h k : History StepSig} {io io' : StepIo} {t p p₀ : Past} {e : Event StepSig} {r : LedgerRecord} {w : Written}

/-! ## The ledger of a past -/

theorem ledgerOf_append {keep : Written → Bool} : ledgerOf keep l (t ++ p) = ledgerOf keep (ledgerOf keep l p) t := by
  induction t with
  | nil => rfl
  | cons e t ih => simp only [List.cons_append, ledgerOf, ih]

theorem ledgerOf_quiet {keep : Written → Bool} (quiet : recordOf keep e = none) : ledgerOf keep l (e :: t) = ledgerOf keep l t := by
  rw [ledgerOf, quiet]

theorem recordOf_some {keep : Written → Bool} (some_ : recordOf keep e = some r) :
    ∃ w, e = ⟨.engine (.record r), w⟩ ∧ keep w = true := by
  obtain ⟨op, w⟩ := e
  cases op with
  | host op => cases some_
  | engine op =>
    cases op with
    | record r' =>
      change (if keep w then some r' else none) = some r at some_
      cases kept : keep w with
      | true =>
        rw [kept] at some_
        cases some_
        exact ⟨w, rfl, kept⟩
      | false =>
        rw [kept] at some_
        cases some_
    | _ => cases some_

theorem stored_record (isStored : w.isStored = true) :
    stored l (⟨.engine (.record r), w⟩ :: t) = ((stored l t).apply r).2 := by
  rw [stored, ledgerOf, show recordOf Written.isStored ⟨.engine (.record r), w⟩ = some r from if_pos isStored]

/-- While every write is acknowledged, the ledger in memory is the one on the disk. -/
theorem Intact.stored (intact : Intact t) : Docker.stored l t = acked l t := by
  induction t with
  | nil => rfl
  | cons e t ih =>
    have before := ih fun e mem => intact e (List.mem_cons_of_mem _ mem)
    have here := intact e List.mem_cons_self
    have same : recordOf Written.isStored e = recordOf Written.isAcknowledged e := by
      obtain ⟨op, answer⟩ := e
      cases op with
      | host op => rfl
      | engine op =>
        cases op with
        | record r =>
          cases answer with
          | acknowledged => rfl
          | failed e stored => cases here
        | _ => rfl
    rw [Docker.stored, acked, ledgerOf, ledgerOf, same, show ledgerOf Written.isStored l t = _ from before]

theorem Intact.append (intact : Intact t) (before : Intact p) : Intact (t ++ p) := by
  intro e mem
  rcases List.mem_append.mp mem with mem | mem
  · exact intact e mem
  · exact before e mem

/-! ## What stands in the ledger -/

/-- The run recorded that the object is gone. -/
def Discarded (p : Past) (dep : DeploymentId) (key : ResourceKey) : Prop :=
  ∃ outcome atMs w, ⟨.engine (.record (.cleanupResult key dep outcome atMs)), w⟩ ∈ p ∧ w.isStored = true ∧
    isGone outcome = true

/-- The ledger names the object for the application, with its id if it is known, by an entry that is unreleased
unless the run recorded that the object is gone. -/
def Stands (app : ApplicationId) (dep : DeploymentId) (l : Ledger) (p : Past) (key : ResourceKey) (known : Option String) :
    Prop :=
  ∃ e, l.find dep key = some e ∧ e.app = app ∧ (∀ id, known = some id → e.id = some id) ∧
    (e.isReleased = false ∨ Discarded p dep key)

/-- What the operation brings about stands in the ledger: the container or the image by its name, and what may
run by its id too. -/
def Named (app : ApplicationId) (dep : DeploymentId) (l : Ledger) (p : Past) : StepOp → Prop
  | .host (.api (.createContainer name _) _) => Stands app dep l p ⟨.container, name⟩ none
  | .host (.runBuild req _) => Stands app dep l p ⟨.image, req.tag⟩ none
  | .host (.api (.startContainer id) _) => ∃ name, Stands app dep l p ⟨.container, name⟩ (some id)
  | _ => True

/-- Every object that the past may have caused to exist, or to run, stands in the ledger. -/
def Accounted (app : ApplicationId) (dep : DeploymentId) (l : Ledger) (p : Past) : Prop :=
  ∀ e ∈ p, Named app dep l p e.op

section

variable {key : ResourceKey} {known : Option String}

theorem Discarded.mono (gone : Discarded p dep key) (grows : p ⊆ t) : Discarded t dep key :=
  gone.imp fun _ gone => gone.imp fun _ gone => gone.imp fun _ gone => ⟨grows gone.1, gone.2⟩

/-- An entry stays whatever happens next, and is released only by a record that says so. -/
theorem find_later {x : Entry} (found : (stored l t).find dep key = some x) :
    ∃ x', (stored l (e :: t)).find dep key = some x' ∧ Ledger.Stays x x' (Discarded [e] dep key) := by
  cases written : recordOf Written.isStored e with
  | none =>
    rw [stored, ledgerOf_quiet written]
    exact ⟨x, found, Ledger.stays_refl⟩
  | some r =>
    obtain ⟨w, rfl, isStored⟩ := recordOf_some written
    rw [stored_record isStored]
    rcases (stored l t).apply_spec r with ⟨x', refused⟩ | ⟨l', accepted, applied⟩
    · rw [refused]
      exact ⟨x, found, Ledger.stays_refl⟩
    · rw [accepted]
      obtain ⟨x', found', stays⟩ := Ledger.find_applied found applied
      refine ⟨x', found', { stays with released := fun unreleased released => ?_ }⟩
      obtain ⟨outcome, atMs, rfl, gone⟩ := stays.released unreleased released
      exact ⟨outcome, atMs, w, List.mem_cons_self, isStored, gone⟩

/-- What stands, stays. -/
theorem Stands.later (stands : Stands app dep (stored l t) p key known) :
    Stands app dep (stored l (e :: t)) (e :: p) key known := by
  obtain ⟨x, found, own, ids, state⟩ := stands
  obtain ⟨x', found', stays⟩ := find_later (e := e) found
  refine ⟨x', found', stays.app.trans own, fun id same => stays.id id (ids id same), ?_⟩
  rcases state with unreleased | gone
  · cases released : x'.isReleased with
    | false => exact .inl rfl
    | true =>
      refine .inr ((stays.released unreleased released).mono fun _ mem => ?_)
      rw [List.mem_singleton.mp mem]
      exact List.mem_cons_self
  · exact .inr (gone.mono fun _ mem => List.mem_cons_of_mem _ mem)

theorem Named.imp {op : StepOp} (lasts : ∀ key known, Stands app dep l p key known → Stands app dep l' t key known)
    (named : Named app dep l p op) : Named app dep l' t op := by
  cases op with
  | engine op => trivial
  | host op =>
    cases op with
    | api op left =>
      cases op with
      | createContainer name spec => exact lasts _ _ named
      | startContainer id => exact Exists.imp (fun _ => lasts _ _) named
      | _ => trivial
    | runBuild req left => exact lasts _ _ named
    | _ => trivial

theorem Accounted.later (accounted : Accounted app dep (stored l t) p) (new : Named app dep (stored l (e :: t)) (e :: p) e.op) :
    Accounted app dep (stored l (e :: t)) (e :: p) := by
  intro x mem
  rcases List.mem_cons.mp mem with rfl | mem
  · exact new
  · exact (accounted x mem).imp fun _ _ => Stands.later

/-! ## A call -/

/-- Every object that the call recorded stands in the ledger. -/
structure Noted (app : ApplicationId) (dep : DeploymentId) (l : Ledger) (t p : Past) : Prop where
  intents : ∀ key, Intended app dep t key → Stands app dep l p key none
  receipts : ∀ key id, Receipted dep t key id → ∃ e, l.find dep key = some e ∧ e.id = some id

/-- An accepted receipt is of an entry that has the id. -/
theorem Ledger.found_receipted {id : String} {atMs : Nat} (applied : Deploy.Ledger.Applied l (.receipt key dep id atMs) l') :
    ∃ e, l'.find dep key = some e ∧ e.id = some id := by
  have found : ∃ e, l.find dep key = some e := by
    cases applied with
    | receipt found noId state => exact ⟨_, found⟩
    | receiptAgain found same => exact ⟨_, found⟩
  obtain ⟨e, found⟩ := found
  obtain ⟨e', found', _, known, _⟩ := Ledger.find_receipted found applied
  exact ⟨e', found', known⟩

theorem Noted.later (noted : Noted app dep (stored l p) t p)
    (new : ∀ r, e = ⟨.engine (.record r), .acknowledged⟩ → Deploy.Ledger.Applied (stored l p) r (stored l (e :: p))) :
    Noted app dep (stored l (e :: p)) (e :: t) (e :: p) where
  intents := fun key ⟨disposition, atMs, mem⟩ => by
    rcases List.mem_cons.mp mem with rfl | mem
    · exact ⟨_, Ledger.find_intended (new _ rfl), rfl, fun _ no => (nomatch no), .inl rfl⟩
    · exact (noted.intents key ⟨disposition, atMs, mem⟩).later
  receipts := fun key id ⟨atMs, mem⟩ => by
    rcases List.mem_cons.mp mem with rfl | mem
    · exact Ledger.found_receipted (new _ rfl)
    · obtain ⟨x, found, known⟩ := noted.receipts key id ⟨atMs, mem⟩
      obtain ⟨x', found', stays⟩ := find_later (e := e) found
      exact ⟨x', found', stays.id id known⟩

/-- One step of a call: what it may bring about stands by then. -/
theorem accounted_step (same : l = stored l₀ p₀) (allowed : Allowed l app dep t e.op)
    (accounted : Accounted app dep (stored l₀ (t ++ p₀)) (t ++ p₀)) (noted : Noted app dep (stored l₀ (t ++ p₀)) t (t ++ p₀)) :
    Accounted app dep (stored l₀ (e :: t ++ p₀)) (e :: t ++ p₀) ∧
      Noted app dep (stored l₀ (e :: t ++ p₀)) (e :: t) (e :: t ++ p₀) := by
  have later : ∀ key known, Stands app dep (stored l₀ (t ++ p₀)) (t ++ p₀) key known →
      Stands app dep (stored l₀ (e :: t ++ p₀)) (e :: t ++ p₀) key known := fun _ _ => Stands.later
  refine ⟨accounted.later ?_, noted.later fun r eq => ?_⟩
  · -- The rule asks for the intent, and for the receipt too where the object may run.
    obtain ⟨op, answer⟩ := e
    cases op with
    | engine op => trivial
    | host op =>
      cases op with
      | api op left =>
        cases op with
        | createContainer name spec => exact later _ _ (noted.intents _ allowed.1)
        | startContainer id =>
          obtain ⟨name, intended, receipted⟩ := allowed
          obtain ⟨x, found, own, _, state⟩ := noted.intents _ intended
          obtain ⟨x', found', known⟩ := noted.receipts _ id receipted
          cases found.symm.trans found'
          exact ⟨name, later _ _ ⟨x, found, own, fun i eq => by cases eq; exact known, state⟩⟩
        | _ => trivial
      | runBuild req left => exact later _ _ (noted.intents _ allowed)
      | _ => trivial
  · subst eq
    obtain ⟨intact, accepts, _, _⟩ := allowed
    have held : acked l t = stored l₀ (t ++ p₀) := by
      rw [← intact.stored, same, stored, stored, stored, ledgerOf_append]
    rw [held] at accepts
    rw [stored_record rfl]
    rcases (stored l₀ (t ++ p₀)).apply_spec r with ⟨x, refused⟩ | ⟨l', accepted, applied⟩
    · rw [Ledger.Accepts, refused] at accepts
      cases accepts
    · rw [accepted]
      exact applied

/-- A call, as far as it went. -/
theorem accounted_call (same : l = stored l₀ p₀) (lawful : Lawful Past.see (Allowed l app dep) [] k)
    (before : Accounted app dep (stored l₀ p₀) p₀) : Accounted app dep (stored l₀ (k.reverse ++ p₀)) (k.reverse ++ p₀) := by
  let I : Past → Prop := fun t =>
    Accounted app dep (stored l₀ (t ++ p₀)) (t ++ p₀) ∧ Noted app dep (stored l₀ (t ++ p₀)) t (t ++ p₀)
  have start : I [] := ⟨before, fun _ ⟨_, _, mem⟩ => (nomatch mem), fun _ _ ⟨_, mem⟩ => (nomatch mem)⟩
  have step : ∀ t e, I t → Allowed l app dep t e.op → I (Past.see t e) := fun t e inv allowed =>
    accounted_step same allowed inv.1 inv.2
  have ended := Lawful.invariant step start lawful
  rw [seen_eq, List.append_nil] at ended
  exact ended.1

/-! ## A run -/

/-- The run up to here: every write was acknowledged, and every object stands in the ledger. -/
structure Orderly (app : ApplicationId) (dep : DeploymentId) (l₀ l : Ledger) (p : Past) : Prop where
  ledger : l = stored l₀ p
  intact : Intact p
  accounted : Accounted app dep (stored l₀ p) p

/-- An event that neither writes a record nor brings anything about. -/
def Plain (e : Event StepSig) : Prop :=
  (∀ keep, recordOf keep e = none) ∧ ∀ app dep l p, Named app dep l p e.op

theorem Orderly.plain (orderly : Orderly app dep l₀ l p) (plain : Plain e) : Orderly app dep l₀ l (e :: p) where
  ledger := by rw [stored, ledgerOf_quiet (plain.1 _)]; exact orderly.ledger
  intact := by
    intro x mem
    rcases List.mem_cons.mp mem with rfl | mem
    · exact plain.1 _
    · exact orderly.intact x mem
  accounted := orderly.accounted.later (plain.2 _ _ _ _)

theorem Orderly.record (orderly : Orderly app dep l₀ l p) :
    Orderly app dep l₀ (l.apply r).2 (⟨.engine (.record r), .acknowledged⟩ :: p) where
  ledger := by rw [stored_record rfl, orderly.ledger]
  intact := orderly.intact.record
  accounted := orderly.accounted.later trivial

theorem Orderly.plains (orderly : Orderly app dep l₀ l p) (plain : ∀ e ∈ k, Plain e) : Orderly app dep l₀ l (k.reverse ++ p) := by
  induction k generalizing p with
  | nil => exact orderly
  | cons e k ih =>
    rw [List.reverse_cons, List.append_assoc]
    exact ih (orderly.plain (plain e List.mem_cons_self)) fun e mem => plain e (List.mem_cons_of_mem _ mem)

theorem plain_hostOnly (lawful : Lawful Past.see HostOnly p k) : ∀ e ∈ k, Plain e := by
  induction k generalizing p with
  | nil => exact fun _ no => nomatch no
  | cons e k ih =>
    intro x mem
    rcases List.mem_cons.mp mem with rfl | mem
    · obtain ⟨op, answer⟩ := x
      have allowed := lawful.1
      cases op with
      | engine op =>
        cases op with
        | nowMs => exact ⟨fun _ => rfl, fun _ _ _ _ => trivial⟩
        | _ => cases allowed
      | host op =>
        cases op with
        | api op left =>
          cases op with
          | createContainer _ _ | startContainer _ => cases allowed
          | _ => exact ⟨fun _ => rfl, fun _ _ _ _ => trivial⟩
        | runBuild _ _ => cases allowed
        | _ => exact ⟨fun _ => rfl, fun _ _ _ _ => trivial⟩
    · exact ih lawful.2 x mem

/-- What the engine asks, while a call may follow. -/
theorem Orderly.ask {t : Turn} {e : Event EngineSig} (orderly : Orderly app dep l₀ l p) (idle : t.inCall = false)
    (opened : (t.see e).shut = false) : Orderly app dep l₀ (ledgerAfter l e) (engines e :: p) := by
  obtain ⟨op, answer⟩ := e
  cases op with
  | record r =>
    cases answer with
    | acknowledged => exact orderly.record
    | failed e stored =>
      have seen : (if !t.inCall && (t.planned || true) then { t with shut := true } else t).shut = false := opened
      rw [idle, Bool.or_true] at seen
      cases seen
  | _ => exact orderly.plain ⟨fun _ => rfl, fun _ _ _ _ => trivial⟩

/-- A whole call. -/
theorem Orderly.call {t : Turn} {c : Call} {script : Script} {res : Except StepError c.Ret}
    (orderly : Orderly app dep l₀ io.ledger p) (remembers : Remembers app dep t st io.ledger) (ofApp : io.app = app)
    (ofDep : io.dep = dep) (plain : fatalIn res = false)
    (served : Program.Follows (serving (perform self c) st io) k (.done (.ok (res, st'), io'))) :
    Orderly app dep l₀ io'.ledger
      (engines ⟨.result c, res⟩ :: (k.reverse ++ engines ⟨.call c io.budgetMs, script⟩ :: p)) := by
  obtain ⟨lawful, after⟩ := served_fits remembers ofApp ofDep served
  have fits := after plain
  have begun : Orderly app dep l₀ io.ledger (engines ⟨.call c io.budgetMs, script⟩ :: p) :=
    orderly.plain ⟨fun _ => rfl, fun _ _ _ _ => trivial⟩
  refine Orderly.plain ⟨?_, fits.intact.append begun.intact, ?_⟩ ⟨fun _ => rfl, fun _ _ _ _ => trivial⟩
  · rw [fits.ledger, ← fits.intact.stored, begun.ledger, stored, stored, stored, ledgerOf_append]
  · exact accounted_call begun.ledger lawful begun.accounted

theorem Docked.orderly (initial : st₀.Initial) (docked : Docked self app dep st₀ l₀ h st l)
    (opened : (turnOf h).shut = false) : Orderly app dep l₀ l h.reverse := by
  induction docked with
  | start => exact ⟨rfl, fun _ no => (nomatch no), fun _ no => (nomatch no)⟩
  | @call h k st st' io io' c script res docked ofApp ofDep served ih =>
    rw [turnOf_append] at opened
    obtain ⟨before, plain⟩ := call_open opened
    have remembers := (docked.settled initial).memory before
    have after : Orderly app dep l₀ io'.ledger
        (engines ⟨.result c, res⟩ :: (k.reverse ++ engines ⟨.call c io.budgetMs, script⟩ :: h.reverse)) :=
      (ih before).call remembers ofApp ofDep plain served
    simpa [List.reverse_append] using after
  | @ask h st l e docked answers ih =>
    rw [turnOf_append] at opened
    have opened : ((turnOf h).see e).shut = false := opened
    have before : (turnOf h).shut = false := by
      cases shut : (turnOf h).shut with
      | false => rfl
      | true => exact absurd (shut_stays (h := [e]) shut) (by rw [History.seen]; simp [opened])
    have after := (ih before).ask (docked.settled initial).idle opened
    simpa using after
  | @list h k st st' l io io' listed docked served ih =>
    obtain ⟨rfl, lawful⟩ := served_same listResources_same served
    rw [turnOf_hostOnly lawful fun _ => rfl] at opened
    have after := ((ih opened).plains (plain_hostOnly lawful)).plain (e := engines ⟨.listResources, listed⟩)
      ⟨fun _ => rfl, fun _ _ _ _ => trivial⟩
    simpa [List.reverse_append] using after
  | @remove h k st st' l io io' req answer docked served ih =>
    obtain ⟨rfl, lawful⟩ := served_same removeResource_same served
    rw [turnOf_hostOnly lawful fun _ => rfl] at opened
    have after := ((ih opened).plains (plain_hostOnly lawful)).plain (e := engines ⟨.removeResource req, answer⟩)
      ⟨fun _ => rfl, fun _ _ _ _ => trivial⟩
    simpa [List.reverse_append] using after

end

/-- What the ledger held before the backend asked `op`: of the call it serves, the intent or the receipt; of the
run, the lease of the port. -/
def Preceded (app : ApplicationId) (dep : DeploymentId) (t : Past) (l : Ledger) : StepOp → Prop
  | .host (.api (.createContainer name spec) _) => Intended app dep t ⟨.container, name⟩ ∧ Leased l spec.hostPort
  | .host (.runBuild req _) => Intended app dep t ⟨.image, req.tag⟩
  | .host (.api (.startContainer id) _) => ∃ name, Receipted dep t ⟨.container, name⟩ id
  | _ => True

theorem preceded_of_allowed {op : StepOp} (allowed : Allowed l app dep t op) : Preceded app dep t (acked l t) op := by
  cases op with
  | engine op => trivial
  | host op =>
    cases op with
    | api op left =>
      cases op with
      | createContainer name spec => exact allowed
      | startContainer id => exact allowed.imp fun _ both => both.2
      | _ => trivial
    | runBuild req left => exact allowed
    | _ => trivial

/-- In every run, whatever is answered and wherever it is cut short: what a call creates, builds or starts was
recorded before, a record that something is gone is made only after Docker said so, and every object that the
run may have caused to exist stands in the ledger that is left on the disk. -/
theorem nothing_is_orphaned {self : DockerBackend} {d : Deployment} {cfg : RunConfig} {st₀ st : State} {h k : History StepSig}
    {c : Call} {io : StepIo} {left} (initial : st₀.Initial) (underway : Underway self d cfg st₀ h c st io k left) :
    (∀ before e rest, k = before ++ e :: rest →
      Preceded d.applicationId d.id before.reverse (acked cfg.priorLedger (h ++ before).reverse) e.op ∧
        ∀ r, e.op = .engine (.record r) → Justified d.id before.reverse r) ∧
    Accounted d.applicationId d.id (stored cfg.priorLedger (h ++ k).reverse) (h ++ k).reverse := by
  obtain ⟨script, driven⟩ := underway.driven
  have lawful := underway.lawful initial
  have orderly := underway.docked.orderly initial (Lawful.at driven.lawful).1
  constructor
  · rintro before e rest rfl
    have allowed := lawful.at
    rw [seen_eq, List.append_nil] at allowed
    have held : acked cfg.priorLedger (h ++ before).reverse = acked io.ledger before.reverse := by
      rw [List.reverse_append, acked, ledgerOf_append, orderly.ledger, orderly.intact.stored]
    refine ⟨held ▸ preceded_of_allowed allowed, fun r eq => ?_⟩
    rw [eq] at allowed
    exact allowed.2.2.2
  · rw [List.reverse_append]
    exact accounted_call orderly.ledger lawful orderly.accounted

end

/-! ## A build that is lost

Buildx is killed, and nobody knows what it left. -/

namespace Orphaned

open Removed

def d : Deployment := { Deployment.new dep app .manual 0 with status := .queued }

def cfg : RunConfig := .default

def lost : (op : StepOp) → op.Answer
  | .host (.api (.imageInspect _) _) => .ok none
  | .host (.runBuild _ _) => ([], .error .timeout)
  | op => steadily img info op

/-- The run up to the build. -/
def stage : Stage (Except EngineError Report × Run) :=
  (Stage.mk [] State.new cfg.priorLedger (runDeploymentConfirmed d ⟨none⟩ cfg)).rehearse backend app dep lost 14

def building : History StepSig := (played lost (perform backend .build) stage.st (stepIo app dep 600000 stage.ledger)).1

/-- The tags that were built under. -/
def StepOp.builds : StepOp → Option String
  | .host (.runBuild req _) => some req.tag
  | _ => none

end Orphaned

open Orphaned Removed in
theorem nothing_is_orphaned_build :
    (building.filterMap (StepOp.builds ·.op)).length = 1 ∧
      Accounted app dep (stored cfg.priorLedger (stage.history ++ building).reverse) (stage.history ++ building).reverse :=
  ⟨by decide +kernel,
    (nothing_is_orphaned ⟨none, rfl⟩ (rehearsed.underway (d := d) (by decide +kernel) played_follows)).2⟩

end Harpoon.Docker
