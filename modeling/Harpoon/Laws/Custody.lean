import Harpoon.Laws.Reads

/-!
# Custody

What the Docker backend may do to the daemon's objects and to the ledger, as a rule on each operation
given the past. The ledger stands on the acknowledged records alone; what a crash leaves stands on those
that were stored. Every operation of the backend follows the rule, whatever it is answered, and leaves
the backend's memory in accord with the ledger.
-/

namespace Harpoon.Docker

open Interact Deploy Deploy.Ports Process

/-! ## What the past says -/

/-- The record that the event wrote, if its write was of that kind. -/
def recordOf (keep : Written → Bool) : Event StepSig → Option LedgerRecord
  | ⟨.engine (.record r), w⟩ => if keep w then some r else none
  | _ => none

/-- The ledger after the records of the past. -/
def ledgerOf (keep : Written → Bool) (l : Ledger) : Past → Ledger
  | [] => l
  | e :: t =>
    match recordOf keep e with
    | some r => ((ledgerOf keep l t).apply r).2
    | none => ledgerOf keep l t

/-- As it stands in memory. -/
abbrev acked (l : Ledger) (t : Past) : Ledger := ledgerOf Written.isAcknowledged l t

/-- As it stands on the disk. -/
abbrev stored (l : Ledger) (t : Past) : Ledger := ledgerOf Written.isStored l t

/-- Every write was acknowledged. -/
def Intact (t : Past) : Prop := ∀ e ∈ t, recordOf (fun w => !w.isAcknowledged) e = none

/-- The record was acknowledged. -/
def Acked (t : Past) (r : LedgerRecord) : Prop := ⟨.engine (.record r), .acknowledged⟩ ∈ t

/-- Docker gave this value. -/
def Answered (t : Past) (op : ApiOp) (value : op.Value) : Prop := ∃ left, ⟨.host (.api op left), .ok value⟩ ∈ t

/-- The object was to be made, and the ledger says so. -/
def Intended (app : ApplicationId) (dep : DeploymentId) (t : Past) (key : ResourceKey) : Prop :=
  ∃ disposition atMs, Acked t (.intent key app dep disposition atMs)

/-- The object was made, and the ledger has its id. -/
def Receipted (dep : DeploymentId) (t : Past) (key : ResourceKey) (id : String) : Prop :=
  ∃ atMs, Acked t (.receipt key dep id atMs)

/-- Docker, asked for the id, reported it with the name and the three labels. -/
def ReadBack (t : Past) (id name : String) (app : ApplicationId) (dep : DeploymentId) : Prop :=
  ∃ info, Answered t (.containerInspect id) (some info) ∧ info.id = id ∧ info.name = name ∧
    hasLabels info.labels app dep = true

/-- Docker said that there is no such container, or removed it. -/
def Gone (t : Past) (id : String) : Prop :=
  Answered t (.containerInspect id) none ∨ Answered t (.stopContainer id 10) false ∨
    ∃ there, Answered t (.removeContainer id) there

/-- An unreleased lease of the port. -/
def Leased (l : Ledger) (port : UInt16) : Prop :=
  ∃ e ∈ l.entries, e.key = StepIo.leaseKey port ∧ e.isReleased = false

/-! ## The rule -/

/-- A container's entry is released only when the container is gone, and an image's not at all. -/
def Justified (dep : DeploymentId) (t : Past) : LedgerRecord → Prop
  | .cleanupResult ⟨.container, name⟩ _ outcome _ =>
    isGone outcome = true → ∃ id, Receipted dep t ⟨.container, name⟩ id ∧ Gone t id
  | .cleanupResult ⟨.image, _⟩ _ outcome _ => isGone outcome = false
  | _ => True

/-- The container is one of an entry of the ledger, and was just read back as that entry has it. -/
def Verifiable (l : Ledger) (t : Past) (id : String) : Prop :=
  ∃ e ∈ l.entries, e.key.kind = .container ∧ e.id = some id ∧ ReadBack t id e.key.name e.app e.deployment

/-- What the backend may ask during a call. -/
def Allowed (l : Ledger) (app : ApplicationId) (dep : DeploymentId) (t : Past) : StepOp → Prop
  | .engine .nowMs => True
  | .engine (.record r) =>
    Intact t ∧ (acked l t).Accepts r ∧ r.deployment = dep ∧ Justified dep t r
  | .engine _ => False
  | .host (.api (.createContainer name spec) _) =>
    Intended app dep t ⟨.container, name⟩ ∧ Leased (acked l t) spec.hostPort
  | .host (.runBuild req _) => Intended app dep t ⟨.image, req.tag⟩
  | .host (.api (.startContainer id) _) =>
    ∃ name, Intended app dep t ⟨.container, name⟩ ∧ Receipted dep t ⟨.container, name⟩ id
  | .host (.api (.stopContainer id _) _) | .host (.api (.removeContainer id) _) => Verifiable (acked l t) t id
  | .host (.api (.removeImage _) _) => False
  | .host _ => True

section

variable {l : Ledger} {app : ApplicationId} {dep : DeploymentId} {t t' : Past} {r : LedgerRecord} {key : ResourceKey}
  {id name : String} {e : Event StepSig} {port : UInt16}

theorem allowed_reads : LetsRead (Allowed l app dep) := by
  refine ⟨fun _ => trivial, fun t op quiet => ?_⟩
  cases op with
  | api op left =>
    cases op with
    | createContainer _ _ | startContainer _ | stopContainer _ _ | removeContainer _ | removeImage _ => exact quiet.elim
    | ping | imageInspect _ | containerInspect _ | listContainers | listImages | configuredHostPorts _ | logs _ _ _ =>
      trivial
  | runBuild _ _ => exact quiet.elim
  | elapsed | random | isListening _ | confine | contextSize _ | freeBytes | guestFreeBytes | createScratch
  | snapshot _ | removeSnapshot _ | readDockerfile _ | iidfileExists _ | sweepSecrets | secretFiles _ _
  | dropSecretFiles | takeIidfile _ | runHealth _ | provePath _ _ _ | verifyForwarder _ => trivial

/-! ## The past grows -/

theorem quiet_records {keep : Written → Bool} (quiet : StepOp.IsQuiet e.op) : recordOf keep e = none := by
  obtain ⟨op, answer⟩ := e
  cases op with
  | host op => rfl
  | engine op => cases op <;> first | rfl | exact quiet.elim

theorem Grows.ledgerOf {keep : Written → Bool} (grows : Grows t t') : ledgerOf keep l t' = Docker.ledgerOf keep l t := by
  obtain ⟨k, rfl, quiet⟩ := grows
  induction k with
  | nil => rfl
  | cons e k ih =>
    rw [List.cons_append, Docker.ledgerOf, quiet_records (quiet e List.mem_cons_self)]
    exact ih fun e mem => quiet e (List.mem_cons_of_mem _ mem)

theorem Grows.intact (grows : Grows t t') (intact : Intact t) : Intact t' := by
  obtain ⟨k, rfl, quiet⟩ := grows
  intro e mem
  rcases List.mem_append.mp mem with mem | mem
  · exact quiet_records (quiet e mem)
  · exact intact e mem

theorem Intact.host {op : HostOp} {answer : op.Answer} (intact : Intact t) : Intact (⟨.host op, answer⟩ :: t) := by
  intro e mem
  rcases List.mem_cons.mp mem with rfl | mem
  · rfl
  · exact intact e mem

theorem Intact.record (intact : Intact t) : Intact (⟨.engine (.record r), .acknowledged⟩ :: t) := by
  intro e mem
  rcases List.mem_cons.mp mem with rfl | mem
  · rfl
  · exact intact e mem

theorem acked_record {l' : Ledger} (applied : Ledger.Applied (acked l t) r l') :
    acked l (⟨.engine (.record r), .acknowledged⟩ :: t) = l' := by
  have eq := applied.eq
  show ((acked l t).apply r).2 = l'
  rw [eq]

theorem sound_acked (sound : l.Sound) (t : Past) : (acked l t).Sound := by
  unfold acked
  induction t with
  | nil => exact sound
  | cons e t ih =>
    rw [ledgerOf]
    split
    next r _ =>
      rcases Ledger.apply_spec (ledgerOf Written.isAcknowledged l t) r with ⟨x, refused⟩ | ⟨l', accepted, applied⟩
      · rw [refused]
        exact ih
      · rw [accepted]
        exact applied.sound ih
    next => exact ih

theorem Acked.mono (h : Acked t r) (grows : t ⊆ t') : Acked t' r := grows h

theorem Intended.mono (h : Intended app dep t key) (grows : t ⊆ t') : Intended app dep t' key :=
  h.imp fun _ h => h.imp fun _ h => grows h

theorem Receipted.mono (h : Receipted dep t key id) (grows : t ⊆ t') : Receipted dep t' key id :=
  h.imp fun _ h => grows h

theorem Answered.mono {op : ApiOp} {value : op.Value} (h : Answered t op value) (grows : t ⊆ t') :
    Answered t' op value := h.imp fun _ h => grows h

theorem ReadBack.mono (h : ReadBack t id name app dep) (grows : t ⊆ t') : ReadBack t' id name app dep :=
  h.imp fun _ h => ⟨h.1.mono grows, h.2⟩

theorem Gone.mono (h : Gone t id) (grows : t ⊆ t') : Gone t' id := by
  rcases h with none | stopped | ⟨there, removed⟩
  · exact .inl (none.mono grows)
  · exact .inr (.inl (stopped.mono grows))
  · exact .inr (.inr ⟨there, removed.mono grows⟩)

theorem Grows.subset (grows : Grows t t') : t ⊆ t' := fun _ => grows.mem

/-- A past that grew, and grew again. -/
theorem subset_trans {t'' : Past} (first : t ⊆ t') (second : t' ⊆ t'') : t ⊆ t'' := fun _ mem => second (first mem)

end

/-! ## What a record changes -/

namespace Ledger

open Deploy.Ledger

variable {l l' : Ledger} {r : LedgerRecord} {d : DeploymentId} {k : ResourceKey} {e : Entry}

/-- The record releases the entry. -/
def Releases (r : LedgerRecord) (d : DeploymentId) (k : ResourceKey) : Prop :=
  ∃ outcome atMs, r = .cleanupResult k d outcome atMs ∧ isGone outcome = true

/-- An entry that is found stays found: its application and its id stay, and it is released only by a
record that says so. -/
structure Stays (e e' : Entry) (releases : Prop) : Prop where
  app : e'.app = e.app
  id : ∀ i, e.id = some i → e'.id = some i
  released : e.isReleased = false → e'.isReleased = true → releases

theorem stays_refl {p : Prop} : Stays e e p := ⟨rfl, fun _ h => h, fun no yes => by cases no.symm.trans yes⟩

theorem isReleased_stateOf (e : Entry) (outcome : CleanupOutcome) :
    ({ e with cleanupOutstanding := false, state := stateOf outcome } : Entry).isReleased = isGone outcome := by
  cases outcome <;> rfl

/-- What is found after one entry was changed. -/
theorem find_changed {f : Entry → Entry} {d' : DeploymentId} {k' : ResourceKey} {e' : Entry}
    (keeps : ∀ x, (f x).ref = x.ref) (found : l.find d k = some e) (found' : l.find d' k' = some e')
    (change : Stays e' (f e') (Releases r d' k')) :
    ∃ x, (l.modifyEntry d' k' f).find d k = some x ∧ Stays e x (Releases r d k) := by
  by_cases same : (d, k) = (d', k')
  · cases same
    cases found.symm.trans found'
    exact ⟨_, find_modifyEntry_self keeps found, change⟩
  · exact ⟨e, (find_modifyEntry_of_ne keeps same).trans found, stays_refl⟩

theorem find_applied (found : l.find d k = some e) (applied : Applied l r l') :
    ∃ e', l'.find d k = some e' ∧ Stays e e' (Releases r d k) := by
  cases applied with
  | intent fresh free => exact ⟨e, find_push_of_some found, stays_refl⟩
  | receipt found' noId state =>
    refine find_changed (fun _ => rfl) found found' ⟨rfl, fun i some => ?_, fun _ released => ?_⟩
    · cases noId.symm.trans some
    · cases released
  | receiptAgain found' same => exact ⟨e, found, stays_refl⟩
  | attempt found' unsettled =>
    refine find_changed (fun _ => rfl) found found' ⟨rfl, fun _ h => h, fun no yes => ?_⟩
    cases no.symm.trans yes
  | @result k' d' outcome atMs e₁ found' outstanding conflict =>
    refine find_changed (fun _ => rfl) found found' ⟨rfl, fun _ h => h, fun _ yes => ⟨outcome, atMs, rfl, ?_⟩⟩
    rw [← yes]
    exact (isReleased_stateOf e₁ outcome).symm

/-- An accepted intent adds an unreleased entry without an id. -/
theorem find_intended {app : ApplicationId} {disposition : Disposition} {atMs : Nat}
    (applied : Applied l (.intent k app d disposition atMs) l') :
    l'.find d k = some (intended k app d disposition atMs) := by
  cases applied with
  | intent fresh free => exact (find_push_of_none fresh).trans (if_pos rfl)

/-- An accepted receipt gives the entry the id. -/
theorem find_receipted {id : String} {atMs : Nat} (found : l.find d k = some e)
    (applied : Applied l (.receipt k d id atMs) l') :
    ∃ e', l'.find d k = some e' ∧ e'.app = e.app ∧ e'.id = some id ∧ (e.isReleased = false → e'.isReleased = false) := by
  cases applied with
  | receipt found' noId state =>
    cases found.symm.trans found'
    exact ⟨_, find_modifyEntry_self (fun _ => rfl) found, rfl, rfl, fun _ => rfl⟩
  | receiptAgain found' same =>
    cases found.symm.trans found'
    exact ⟨e, found, rfl, same, fun h => h⟩

/-- The record releases a lease of the port. -/
def ReleasesPort (r : LedgerRecord) (port : UInt16) : Prop := ∃ d, Releases r d (StepIo.leaseKey port)

theorem leased_changed {f : Entry → Entry} {d' : DeploymentId} {k' : ResourceKey} {port : UInt16} (leased : Leased l port)
    (change : ∀ e, e.ref = (d', k') → e.key = StepIo.leaseKey port → e.isReleased = false →
      (f e).key = e.key ∧ (f e).isReleased = false) : Leased (l.modifyEntry d' k' f) port := by
  obtain ⟨e, mem, key, unreleased⟩ := leased
  rcases (Keyed.mem_modify_or mem : e ∈ Keyed.modify Entry.ref (d', k') f l.entries ∨ _) with stays | ⟨ref, changed⟩
  · exact ⟨e, stays, key, unreleased⟩
  · obtain ⟨same, kept⟩ := change e ref key unreleased
    exact ⟨f e, changed, same.trans key, kept⟩

/-- A lease stays unless a record releases it. -/
theorem leased_applied {port : UInt16} (leased : Leased l port) (applied : Applied l r l')
    (kept : ¬ ReleasesPort r port) : Leased l' port := by
  cases applied with
  | intent fresh free =>
    obtain ⟨e, mem, held⟩ := leased
    exact ⟨e, List.mem_append_left _ mem, held⟩
  | receipt found noId state => exact leased_changed leased fun _ _ _ _ => ⟨rfl, rfl⟩
  | receiptAgain found same => exact leased
  | attempt found unsettled => exact leased_changed leased fun _ _ _ unreleased => ⟨rfl, unreleased⟩
  | @result k' d' outcome atMs e₁ found outstanding conflict =>
    refine leased_changed leased fun e ref key _ => ⟨rfl, ?_⟩
    rw [isReleased_stateOf e outcome]
    cases gone : isGone outcome with
    | false => rfl
    | true =>
      have same : e.key = k' := congrArg Prod.snd ref
      exact absurd ⟨d', outcome, atMs, by rw [← same, key], gone⟩ kept

end Ledger

/-! ## The backend's memory and the ledger -/

/-- What the backend remembers stands in the ledger: the container it made for the application, and the
port it reserved, if it may have planned a release. -/
structure Fits (l : Ledger) (app : ApplicationId) (dep : DeploymentId) (plans : Prop) (st : State) (io : StepIo) (t : Past) : Prop where
  ledger : io.ledger = acked l t
  ofApp : io.app = app
  ofDep : io.dep = dep
  intact : Intact t
  recorded : ∀ name port, st.app = some (name, port) →
    ∃ e, io.ledger.find dep ⟨.container, name⟩ = some e ∧ e.app = app
  planned : ∀ lease, st.plannedLease = some lease → plans ∧ Leased io.ledger lease.hostPort

/-- Code that gives up leaves the memory in accord with the ledger, unless a write failed. -/
def Aborts (l : Ledger) (app : ApplicationId) (dep : DeploymentId) (plans : Prop) (e : StepError) (st : State) (io : StepIo)
    (t : Past) : Prop := e.fatal = none → Fits l app dep plans st io t

section

open Deploy.Ledger

variable {l l' : Ledger} {app : ApplicationId} {dep : DeploymentId} {plans : Prop} {st st' : State} {io io' : StepIo} {t t' : Past}
  {r : LedgerRecord} {α : Type} {post : α → State → StepIo → Past → Prop} {fail : StepError → State → StepIo → Past → Prop}

namespace Fits

theorem grows (fits : Fits l app dep plans st io t) (grows : Grows t t') (same : Same io io') : Fits l app dep plans st io' t' where
  ledger := same.ledger.trans (fits.ledger.trans grows.ledgerOf.symm)
  ofApp := same.app.trans fits.ofApp
  ofDep := same.dep.trans fits.ofDep
  intact := grows.intact fits.intact
  recorded := same.ledger ▸ fits.recorded
  planned := same.ledger ▸ fits.planned

theorem host {op : HostOp} {answer : op.Answer} (fits : Fits l app dep plans st io t) :
    Fits l app dep plans st io (⟨.host op, answer⟩ :: t) where
  ledger := fits.ledger
  ofApp := fits.ofApp
  ofDep := fits.ofDep
  intact := fits.intact.host
  recorded := fits.recorded
  planned := fits.planned

theorem record (fits : Fits l app dep plans st io t) (applied : Applied io.ledger r l')
    (kept : ∀ lease, st.plannedLease = some lease → ¬ Ledger.ReleasesPort r lease.hostPort) :
    Fits l app dep plans st { io with ledger := l' } (⟨.engine (.record r), .acknowledged⟩ :: t) where
  ledger := (acked_record (fits.ledger ▸ applied)).symm
  ofApp := fits.ofApp
  ofDep := fits.ofDep
  intact := fits.intact.record
  recorded := fun name port some => by
    obtain ⟨e, found, own⟩ := fits.recorded name port some
    obtain ⟨e', found', stays⟩ := Ledger.find_applied found applied
    exact ⟨e', found', stays.app.trans own⟩
  planned := fun lease some =>
    ⟨(fits.planned lease some).1, Ledger.leased_applied (fits.planned lease some).2 applied (kept lease some)⟩

/-- A change of the memory that forgets, or keeps, what the ledger must know of. -/
theorem memory (fits : Fits l app dep plans st io t) (st' : State) (app' : st'.app = st.app)
    (planned : ∀ lease, st'.plannedLease = some lease → st.plannedLease = some lease) : Fits l app dep plans st' io t where
  ledger := fits.ledger
  ofApp := fits.ofApp
  ofDep := fits.ofDep
  intact := fits.intact
  recorded := fun name port some => fits.recorded name port (app' ▸ some)
  planned := fun lease some => fits.planned lease (planned lease some)

/-- The ledger that is held is the one that was acknowledged. -/
theorem acked (fits : Fits l app dep plans st io t) (grows : Grows t t') : Docker.acked l t' = io.ledger := by
  rw [Docker.acked, grows.ledgerOf, fits.ledger]

end Fits

/-- Reading, in custody. -/
theorem Reads.fits {P : α → Prop} {x : Docker α} (reads : Reads P x) (fits : Fits l app dep plans st io t)
    (ends : ∀ value io' t', P value → Grows t t' → Same io io' → Fits l app dep plans st io' t' → post value st io' t') :
    Serves (Allowed l app dep) x post (Aborts l app dep plans) st io t :=
  reads.serves allowed_reads (fun value io' t' holds grows same => ends value io' t' holds grows same (fits.grows grows same))
    fun _ _ _ grows same _ => fits.grows grows same

/-! ## Records -/

/-- One write: acknowledged and applied, or refused with the ledger as it was, or failed for good. -/
theorem write_meets {fail : StepError → StepIo → Past → Prop} {post : Unit → StepIo → Past → Prop}
    (fits : Fits l app dep plans st io t) (own : r.deployment = dep) (justified : Justified dep t r)
    (ends : ∀ l', Applied io.ledger r l' →
      post () { io with ledger := l' } (⟨.engine (.record r), .acknowledged⟩ :: t))
    (fails : ∀ e io' t', (e.fatal = none → io' = io ∧ t' = t) → fail e io' t') :
    Meets onPast (fun t op => Allowed l app dep t (.engine op)) (StepIo.write r) post fail io t := by
  refine meets_bind.mpr (meets_get.mpr ?_)
  rcases io.ledger.apply_spec r with ⟨x, refused⟩ | ⟨l', accepted, applied⟩
  · rw [refused]
    exact fails _ io t fun _ => ⟨rfl, rfl⟩
  · rw [accepted]
    have accepts : (acked l t).Accepts r := by rw [← fits.ledger, Ledger.Accepts, accepted]
    refine meets_bind.mpr ⟨⟨fits.intact, accepts, own, justified⟩, fun answer => ?_⟩
    cases answer with
    | acknowledged => exact ends l' applied
    | failed e stored => exact fails _ io _ fun plain => by cases plain

/-- A record of what the `StepIo` holds, at the time it is written. -/
theorem writeNow_meets {fail : StepError → StepIo → Past → Prop} {post : Unit → StepIo → Past → Prop}
    {r : Nat → StepIo → LedgerRecord} (fits : Fits l app dep plans st io t) (own : ∀ atMs, (r atMs io).deployment = dep)
    (justified : ∀ atMs, Justified dep t (r atMs io))
    (ends : ∀ atMs l' t', Grows t t' → Applied io.ledger (r atMs io) l' →
      post () { io with ledger := l' } (⟨.engine (.record (r atMs io)), .acknowledged⟩ :: t'))
    (fails : ∀ e io' t', (e.fatal = none → io' = io ∧ Grows t t') → fail e io' t') :
    Meets onPast (fun t op => Allowed l app dep t (.engine op))
      (do let atMs ← now; let io ← get; StepIo.write (r atMs io)) post fail io t := by
  refine meets_bind.mpr ⟨trivial, fun atMs => meets_bind.mpr (meets_get.mpr ?_)⟩
  have grows : Grows t (⟨.engine .nowMs, atMs⟩ :: t) := .one trivial
  refine write_meets (fits.grows grows (.refl io)) (own atMs) ?_ (ends atMs · _ grows) ?_
  · have justified := justified atMs
    cases shape : r atMs io with
    | cleanupResult key _ outcome _ =>
      rw [shape] at justified
      obtain ⟨kind, name⟩ := key
      cases kind with
      | container =>
        intro gone
        obtain ⟨id, receipted, gone⟩ := justified gone
        exact ⟨id, receipted.mono grows.subset, gone.mono grows.subset⟩
      | image => exact justified
      | portLease => trivial
    | intent _ _ _ _ _ | receipt _ _ _ _ | cleanupAttempt _ _ _ => trivial
  · intro e io' t' plain
    refine fails e io' t' fun none => ?_
    obtain ⟨rfl, rfl⟩ := plain none
    exact ⟨rfl, grows⟩

variable {key : ResourceKey} {port : UInt16}

theorem mem_grows {e : Event StepSig} (grows : Grows t t') : t ⊆ e :: t' :=
  fun _ mem => List.mem_cons_of_mem e (grows.mem mem)

abbrev OnStep (l : Ledger) (app : ApplicationId) (dep : DeploymentId) (plans : Prop) (x : Engine StepIo StepError α)
    (post : α → StepIo → Past → Prop) (st : State) (io : StepIo) (t : Past) : Prop :=
  Meets onPast (fun t op => Allowed l app dep t (.engine op)) x post (fun e io t => Aborts l app dep plans e st io t) io t

theorem intend_onStep {disposition : Disposition} {post : Intent → StepIo → Past → Prop} (fits : Fits l app dep plans st io t)
    (ends : ∀ atMs io' t', t ⊆ t' → Fits l app dep plans st io' t' → Acked t' (.intent key app dep disposition atMs) →
      Applied io.ledger (.intent key app dep disposition atMs) io'.ledger → post ⟨key⟩ io' t') :
    OnStep l app dep plans (StepIo.intend key disposition) post st io t := by
  obtain rfl := fits.ofApp
  obtain rfl := fits.ofDep
  have shape : StepIo.intend key disposition =
      (do let atMs ← now; let io ← get; StepIo.write (.intent key io.app io.dep disposition atMs)) >>= fun _ =>
        pure ⟨key⟩ := by
    simp only [StepIo.intend, bind_assoc]
  rw [OnStep, shape]
  refine meets_bind.mpr (writeNow_meets fits (fun _ => rfl) (fun _ => trivial) ?_ ?_)
  · intro atMs l' t' grows applied
    have fits' := (fits.grows grows (.refl io)).record applied fun _ _ ⟨_, _, _, eq, _⟩ => nomatch eq
    exact ends atMs _ _ (mem_grows grows) fits' List.mem_cons_self applied
  · intro e io' t' plain none
    obtain ⟨rfl, grows⟩ := plain none
    exact fits.grows grows (.refl _)

theorem receipt_onStep {id : String} {post : Unit → StepIo → Past → Prop} (fits : Fits l app dep plans st io t)
    (ends : ∀ atMs io' t', t ⊆ t' → Fits l app dep plans st io' t' → Acked t' (.receipt key dep id atMs) →
      Applied io.ledger (.receipt key dep id atMs) io'.ledger → post () io' t') :
    OnStep l app dep plans (StepIo.receipt ⟨key⟩ id) post st io t := by
  obtain rfl := fits.ofDep
  refine writeNow_meets (r := fun atMs io => .receipt key io.dep id atMs) fits (fun _ => rfl) (fun _ => trivial) ?_ ?_
  · intro atMs l' t' grows applied
    have fits' := (fits.grows grows (.refl io)).record applied fun _ _ ⟨_, _, _, eq, _⟩ => nomatch eq
    exact ends atMs _ _ (mem_grows grows) fits' List.mem_cons_self applied
  · intro e io' t' plain none
    obtain ⟨rfl, grows⟩ := plain none
    exact fits.grows grows (.refl _)

theorem cleanupAttempt_onStep {post : Unit → StepIo → Past → Prop} (fits : Fits l app dep plans st io t)
    (ends : ∀ atMs io' t', t ⊆ t' → Fits l app dep plans st io' t' →
      Applied io.ledger (.cleanupAttempt key dep atMs) io'.ledger → post () io' t') :
    OnStep l app dep plans (StepIo.cleanupAttempt key) post st io t := by
  obtain rfl := fits.ofDep
  refine writeNow_meets (r := fun atMs io => .cleanupAttempt key io.dep atMs) fits (fun _ => rfl) (fun _ => trivial) ?_ ?_
  · intro atMs l' t' grows applied
    have fits' := (fits.grows grows (.refl io)).record applied fun _ _ ⟨_, _, _, eq, _⟩ => nomatch eq
    exact ends atMs _ _ (mem_grows grows) fits' applied
  · intro e io' t' plain none
    obtain ⟨rfl, grows⟩ := plain none
    exact fits.grows grows (.refl _)

/-- The result of a cleanup, of anything but a port that is reserved for later. -/
theorem cleanupResult_onStep {outcome : CleanupOutcome} {post : Unit → StepIo → Past → Prop}
    (fits : Fits l app dep plans st io t) (justified : ∀ atMs, Justified dep t (.cleanupResult key dep outcome atMs))
    (kept : ∀ lease, st.plannedLease = some lease → key ≠ StepIo.leaseKey lease.hostPort)
    (ends : ∀ atMs io' t', t ⊆ t' → Fits l app dep plans st io' t' →
      Applied io.ledger (.cleanupResult key dep outcome atMs) io'.ledger → post () io' t') :
    OnStep l app dep plans (StepIo.cleanupResult key outcome) post st io t := by
  obtain rfl := fits.ofDep
  refine writeNow_meets (r := fun atMs io => .cleanupResult key io.dep outcome atMs) fits (fun _ => rfl) justified ?_ ?_
  · intro atMs l' t' grows applied
    have elsewhere : ∀ lease, st.plannedLease = some lease →
        ¬ Ledger.ReleasesPort (.cleanupResult key io.dep outcome atMs) lease.hostPort := by
      rintro lease planned ⟨d, outcome', atMs', eq, _⟩
      injection eq with same
      exact kept lease planned same
    have fits' := (fits.grows grows (.refl io)).record applied elsewhere
    exact ends atMs _ _ (mem_grows grows) fits' applied
  · intro e io' t' plain none
    obtain ⟨rfl, grows⟩ := plain none
    exact fits.grows grows (.refl _)

/-! ## Records, as the backend writes them -/

/-- An intent is acknowledged, and the entry stands. -/
theorem intend_serves {disposition : Disposition} {post : Intent → State → StepIo → Past → Prop}
    (fits : Fits l app dep plans st io t)
    (ends : ∀ atMs io' t', t ⊆ t' → Fits l app dep plans st io' t' → Acked t' (.intent key app dep disposition atMs) →
      Applied io.ledger (.intent key app dep disposition atMs) io'.ledger → post ⟨key⟩ st io' t') :
    Serves (Allowed l app dep) (intend key disposition) post (Aborts l app dep plans) st io t :=
  serves_bind.mpr (serves_io (meets_attempt.mpr (intend_onStep fits ends)))

/-- A receipt is acknowledged. -/
theorem receipt_serves {id : String} {post : Unit → State → StepIo → Past → Prop} (fits : Fits l app dep plans st io t)
    (ends : ∀ atMs io' t', t ⊆ t' → Fits l app dep plans st io' t' → Acked t' (.receipt key dep id atMs) →
      Applied io.ledger (.receipt key dep id atMs) io'.ledger → post () st io' t') :
    Serves (Allowed l app dep) (receipt ⟨key⟩ id) post (Aborts l app dep plans) st io t :=
  serves_bind.mpr (serves_io (meets_attempt.mpr (receipt_onStep fits ends)))

theorem cleanupAttempt_serves {post : Unit → State → StepIo → Past → Prop} (fits : Fits l app dep plans st io t)
    (ends : ∀ atMs io' t', t ⊆ t' → Fits l app dep plans st io' t' →
      Applied io.ledger (.cleanupAttempt key dep atMs) io'.ledger → post () st io' t') :
    Serves (Allowed l app dep) (cleanupAttempt key) post (Aborts l app dep plans) st io t :=
  serves_bind.mpr (serves_io (meets_attempt.mpr (cleanupAttempt_onStep fits ends)))

theorem cleanupResult_serves {outcome : CleanupOutcome} {post : Unit → State → StepIo → Past → Prop}
    (fits : Fits l app dep plans st io t) (justified : ∀ atMs, Justified dep t (.cleanupResult key dep outcome atMs))
    (kept : ∀ lease, st.plannedLease = some lease → key ≠ StepIo.leaseKey lease.hostPort)
    (ends : ∀ atMs io' t', t ⊆ t' → Fits l app dep plans st io' t' →
      Applied io.ledger (.cleanupResult key dep outcome atMs) io'.ledger → post () st io' t') :
    Serves (Allowed l app dep) (cleanupResult key outcome) post (Aborts l app dep plans) st io t :=
  serves_bind.mpr (serves_io (meets_attempt.mpr (cleanupResult_onStep fits justified kept ends)))

/-- What is found of an entry that was just intended and receipted. -/
theorem leased_receipted {io' : StepIo} {disposition : Disposition} {id : String} {ms ms' : Nat} {l₀ : Ledger}
    (intent : Applied l₀ (.intent (StepIo.leaseKey port) app dep disposition ms) io.ledger)
    (receipt : Applied io.ledger (.receipt (StepIo.leaseKey port) dep id ms') io'.ledger) : Leased io'.ledger port := by
  obtain ⟨e, found, _, _, unreleased⟩ := Ledger.find_receipted (Ledger.find_intended intent) receipt
  exact ⟨e, find_mem found, find_key found, unreleased rfl⟩

/-- A port is reserved. -/
theorem leasePort_serves {lease : PortLease} {post : Unit → State → StepIo → Past → Prop} (fits : Fits l app dep plans st io t)
    (ends : ∀ io' t', t ⊆ t' → Fits l app dep plans st io' t' → Leased io'.ledger lease.hostPort → post () st io' t') :
    Serves (Allowed l app dep) (leasePort lease) post (Aborts l app dep plans) st io t := by
  refine serves_bind.mpr (serves_io (meets_attempt.mpr (meets_bind.mpr (intend_onStep fits ?_))))
  intro atMs io₁ t₁ grows₁ fits₁ _ intent
  refine meets_bind.mpr (receipt_onStep fits₁ ?_)
  intro atMs' io₂ t₂ grows₂ fits₂ _ receipt
  exact ends io₂ t₂ (subset_trans grows₁ grows₂) fits₂ (leased_receipted intent receipt)

/-- A port is given back, while none is reserved for later. -/
theorem releaseLease_serves {post : Unit → State → StepIo → Past → Prop} (fits : Fits l app dep plans st io t)
    (unplanned : st.plannedLease = none)
    (ends : ∀ io' t', t ⊆ t' → Fits l app dep plans st io' t' → post () st io' t') :
    Serves (Allowed l app dep) (releaseLease port) post (Aborts l app dep plans) st io t := by
  refine serves_bind.mpr (serves_io (meets_attempt.mpr (meets_bind.mpr (cleanupAttempt_onStep fits ?_))))
  intro atMs io₁ t₁ grows₁ fits₁ _
  refine cleanupResult_onStep fits₁ (fun _ => trivial) (fun lease planned => ?_) ?_
  · cases unplanned.symm.trans planned
  · intro atMs' io₂ t₂ grows₂ fits₂ _
    exact ends io₂ t₂ (subset_trans grows₁ grows₂) fits₂

end

end Harpoon.Docker
