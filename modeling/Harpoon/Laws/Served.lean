import Harpoon.Docker.Steps
import Harpoon.Laws.Ledger

/-!
# The backend on its `StepIo`

How to reason about the Docker backend while it serves a call. The summary is the whole past, newest
event first, so a rule can speak of what was asked and answered before. `Serves` is the weakest
precondition of a piece of the backend on a `StepIo`; code that only reads is proved once to read, and
costs a proof nothing more.
-/

namespace Harpoon.Docker

open Interact Deploy Process

/-- What was asked and answered so far, newest first. -/
abbrev Past := History StepSig

def Past.see (t : Past) (e : Event StepSig) : Past := e :: t

theorem seen_eq {h : History StepSig} {t : Past} : h.seen Past.see t = h.reverse ++ t := by
  unfold History.seen
  induction h generalizing t with
  | nil => rfl
  | cons e h ih =>
    rw [List.foldl_cons, ih, List.reverse_cons, List.append_assoc]
    rfl

/-! ## Rules -/

section

variable {α β : Type} {rule : Past → StepOp → Prop} {st : State} {io : StepIo} {t : Past}

theorem serve_bind {ε : Type} (p : Program BackendSig α) (f : α → Program BackendSig β) :
    (serve (p.bind f) : Process StepSig StepIo ε β) = serve p >>= fun a => serve (f a) := by
  induction p with
  | done value => rw [serve, pure_bind]; rfl
  | ask op next ih =>
    cases op with
    | io op => simp only [Program.ask_bind, serve, bind_assoc, ih]
    | host op => simp only [Program.ask_bind, serve, bind_assoc, ih]

/-- From the state `st` on the `StepIo` `io`, the code obeys the rule and ends with `post`, or gives up
with `fail`. -/
def Serves (rule : Past → StepOp → Prop) (x : Docker α) (post : α → State → StepIo → Past → Prop)
    (fail : StepError → State → StepIo → Past → Prop) (st : State) (io : StepIo) (t : Past) : Prop :=
  Meets Past.see rule (serve (x.toProgram st) : Process StepSig StepIo Empty (Except StepError α × State))
    (fun out io t => match out.1 with
      | .ok value => post value out.2 io t
      | .error e => fail e out.2 io t) (fun e _ _ => e.elim) io t

variable {post post' : α → State → StepIo → Past → Prop} {fail fail' : StepError → State → StepIo → Past → Prop}

theorem serves_pure {value : α} : Serves rule (pure value) post fail st io t ↔ post value st io t := Iff.rfl

theorem serves_throw {e : StepError} : Serves rule (throw e : Docker α) post fail st io t ↔ fail e st io t := Iff.rfl

theorem serves_get {post : State → State → StepIo → Past → Prop} :
    Serves rule (get : Docker State) post fail st io t ↔ post st st io t := Iff.rfl

theorem serves_modify {post : PUnit → State → StepIo → Past → Prop} {f : State → State} :
    Serves rule (modify f : Docker PUnit) post fail st io t ↔ post ⟨⟩ (f st) io t := Iff.rfl

theorem serves_bind {x : Docker α} {f : α → Docker β} {post : β → State → StepIo → Past → Prop} :
    Serves rule (x >>= f) post fail st io t ↔
      Serves rule x (fun value st io t => Serves rule (f value) post fail st io t) fail st io t := by
  unfold Serves
  rw [toProgram_bind, serve_bind, meets_bind]
  refine ⟨fun h => h.imp ?_, fun h => h.imp ?_⟩ <;>
    · rintro ⟨⟨e⟩ | ⟨value⟩, st⟩ io t h <;> exact h

theorem Serves.mono {x : Docker α} (h : Serves rule x post fail st io t)
    (hpost : ∀ value st io t, post value st io t → post' value st io t)
    (hfail : ∀ e st io t, fail e st io t → fail' e st io t) : Serves rule x post' fail' st io t := by
  refine Process.Meets.mono h ?_ fun e => e.elim
  rintro ⟨⟨e⟩ | ⟨value⟩, st⟩ io t h
  · exact hfail e st io t h
  · exact hpost value st io t h

theorem serves_attempt {x : Docker α} {post : Except StepError α → State → StepIo → Past → Prop} :
    Serves rule (Process.attempt x : Docker (Except StepError α)) post fail st io t ↔
      Serves rule x (fun value => post (.ok value)) (fun e => post (.error e)) st io t := by
  have run_attempt : (Process.attempt x : Docker (Except StepError α)).toProgram st =
      (x.toProgram st).bind fun out => .done (.ok out.1, out.2) := rfl
  unfold Serves
  rw [run_attempt, serve_bind, meets_bind]
  refine ⟨fun h => h.imp ?_, fun h => h.imp ?_⟩ <;>
    · rintro ⟨⟨e⟩ | ⟨value⟩, st⟩ io t h <;> exact h

theorem serves_ofExcept {δ : Type} {wrap : δ → StepError} {x : Except δ α}
    (ok : ∀ value, x = .ok value → post value st io t) (error : ∀ e, x = .error e → fail (wrap e) st io t) :
    Serves rule (Process.ofExcept wrap x) post fail st io t := by
  cases x with
  | ok value => exact ok value rfl
  | error e => exact error e rfl

theorem serves_host {op : HostOp} {post : op.Answer → State → StepIo → Past → Prop} :
    Serves rule (host op) post fail st io t ↔
      rule t (.host op) ∧ ∀ answer, post answer st io (⟨.host op, answer⟩ :: t) := Iff.rfl

/-- What an event of the engine's is in the past. -/
def onPast (t : Past) (e : Event EngineSig) : Past := ⟨.engine e.op, e.answer⟩ :: t

theorem serves_io {op : IoOp} {post : op.Answer → State → StepIo → Past → Prop}
    (answers : Meets onPast (fun t op => rule t (.engine op)) (StepIo.answer op : Engine StepIo Empty op.Answer)
      (fun answer io t => post answer st io t) (fun e _ _ => e.elim) io t) :
    Serves rule (useIo op) post fail st io t := by
  have each : ∀ (op : EngineOp) (t : Past), rule t (.engine op) →
      (onEngine op).Obeys Past.see rule (fun answer t' => t' = onPast t ⟨op, answer⟩) t :=
    fun op t allowed => ⟨allowed, fun _ => rfl⟩
  exact meets_bind.mpr (Meets.via each answers)

theorem serves_app {post : ApplicationId → State → StepIo → Past → Prop} (h : post io.app st io t) :
    Serves rule (useIo .app) post fail st io t := serves_io h

theorem serves_deployment {post : DeploymentId → State → StepIo → Past → Prop} (h : post io.dep st io t) :
    Serves rule (useIo .deployment) post fail st io t := serves_io h

theorem serves_ledger {post : Ledger → State → StepIo → Past → Prop} (h : post io.ledger st io t) :
    Serves rule (useIo .ledger) post fail st io t := serves_io h

/-! ## Reading -/

/-- The uses of a `StepIo` that write nothing. -/
def IoOp.IsQuiet : IoOp → Prop
  | .intend _ _ | .receipt _ _ | .cleanupAttempt _ | .cleanupResult _ _ | .leasePort _ | .releaseLease _ => False
  | .nowMs | .budgetMs | .app | .deployment | .ledger | .pushChunk _ | .pushLine _ | .pushText _ | .redact _ => True

/-- The operations that change nothing of Docker's. -/
def HostOp.IsQuiet : HostOp → Prop
  | .api (.createContainer _ _) _ | .api (.startContainer _) _ | .api (.stopContainer _ _) _
  | .api (.removeContainer _) _ | .api (.removeImage _) _ | .runBuild _ _ => False
  | _ => True

def BackendOp.IsQuiet : BackendOp → Prop
  | .io op => IoOp.IsQuiet op
  | .host op => op.IsQuiet

/-- The code asks quiet operations only, leaves the backend's state as it is, and returns what `P` says. -/
def Reads (P : α → Prop) (x : Docker α) : Prop :=
  ∀ st, Meets (fun _ _ => ()) (fun _ op => BackendOp.IsQuiet op) x (fun value st' _ => st' = st ∧ P value)
    (fun _ st' _ => st' = st) st ()

theorem Reads.pure {P : α → Prop} {value : α} (holds : P value) : Reads P (pure value) := fun _ => ⟨rfl, holds⟩

theorem Reads.throw {P : α → Prop} {e : StepError} : Reads P (throw e : Docker α) := fun _ => rfl

theorem Reads.bind {P : α → Prop} {Q : β → Prop} {x : Docker α} {f : α → Docker β} (first : Reads P x)
    (second : ∀ value, P value → Reads Q (f value)) : Reads Q (x >>= f) := by
  intro st
  refine meets_bind.mpr ((first st).mono ?_ fun _ _ _ => id)
  rintro value st' _ ⟨rfl, holds⟩
  exact second value holds st'

theorem Reads.asks {op : HostOp} (quiet : op.IsQuiet) : Reads (fun _ => True) (host op) :=
  fun _ => ⟨quiet, fun _ => ⟨rfl, trivial⟩⟩

theorem Reads.uses {op : IoOp} (quiet : IoOp.IsQuiet op) : Reads (fun _ => True) (useIo op) :=
  fun _ => ⟨quiet, fun _ => ⟨rfl, trivial⟩⟩

theorem Reads.get {f : State → Docker α} {P : α → Prop} (rest : ∀ st, Reads P (f st)) :
    Reads P (do let st ← get; f st) :=
  fun st => meets_bind.mpr (meets_get.mpr (rest st st))

theorem Reads.ofExcept {δ : Type} {wrap : δ → StepError} {x : Except δ α} :
    Reads (fun value => x = .ok value) (Process.ofExcept wrap x) :=
  fun _ => meets_ofExcept (fun _ ok => ⟨rfl, ok⟩) fun _ _ => rfl

theorem Reads.imp {P Q : α → Prop} {x : Docker α} (reads : Reads P x) (weaker : ∀ value, P value → Q value) :
    Reads Q x := fun st => (reads st).imp fun value _ _ h => ⟨h.1, weaker value h.2⟩

theorem Reads.any {P : α → Prop} {x : Docker α} (reads : Reads P x) : Reads (fun _ => True) x :=
  reads.imp fun _ _ => trivial

/-- What reading adds to the past. -/
def StepOp.IsQuiet : StepOp → Prop
  | .engine .nowMs => True
  | .engine _ => False
  | .host op => op.IsQuiet

/-- The past grew by quiet operations only. -/
def Grows (t t' : Past) : Prop := ∃ k, t' = k ++ t ∧ ∀ e ∈ k, StepOp.IsQuiet e.op

theorem Grows.refl (t : Past) : Grows t t := ⟨[], rfl, fun _ mem => nomatch mem⟩

theorem Grows.one {t : Past} {e : Event StepSig} (quiet : StepOp.IsQuiet e.op) : Grows t (e :: t) :=
  ⟨[e], rfl, fun _ mem => List.mem_singleton.mp mem ▸ quiet⟩

theorem Grows.trans {t t' t'' : Past} (h : Grows t t') (h' : Grows t' t'') : Grows t t'' := by
  obtain ⟨k, rfl, quiet⟩ := h
  obtain ⟨k', rfl, quiet'⟩ := h'
  refine ⟨k' ++ k, (List.append_assoc ..).symm, fun e mem => ?_⟩
  rcases List.mem_append.mp mem with mem | mem
  · exact quiet' e mem
  · exact quiet e mem

theorem Grows.mem {t t' : Past} {e : Event StepSig} (h : Grows t t') (mem : e ∈ t) : e ∈ t' := by
  obtain ⟨k, rfl, _⟩ := h
  exact List.mem_append_right k mem

/-- The same ledger, of the same deployment. -/
structure Same (io io' : StepIo) : Prop where
  ledger : io'.ledger = io.ledger
  app : io'.app = io.app
  dep : io'.dep = io.dep

theorem Same.refl (io : StepIo) : Same io io := ⟨rfl, rfl, rfl⟩

theorem Same.trans {io io' io'' : StepIo} (h : Same io io') (h' : Same io' io'') : Same io io'' :=
  ⟨h'.ledger.trans h.ledger, h'.app.trans h.app, h'.dep.trans h.dep⟩

/-- The rule lets the code read. -/
def LetsRead (rule : Past → StepOp → Prop) : Prop :=
  (∀ t, rule t (.engine .nowMs)) ∧ ∀ t (op : HostOp), op.IsQuiet → rule t (.host op)

/-- A quiet use of a `StepIo`, whatever it answers. -/
theorem quiet_answer (lets : LetsRead rule) {op : IoOp} (quiet : IoOp.IsQuiet op)
    {post : op.Answer → StepIo → Past → Prop}
    (ends : ∀ answer io' t', Grows t t' → Same io io' → post answer io' t') :
    Meets onPast (fun t op => rule t (.engine op)) (StepIo.answer op : Engine StepIo Empty op.Answer) post
      (fun e _ _ => e.elim) io t := by
  cases op with
  | intend _ _ | receipt _ _ | cleanupAttempt _ | cleanupResult _ _ | leasePort _ | releaseLease _ => exact quiet.elim
  | nowMs => exact ⟨lets.1 t, fun answer => ends answer io _ (.one trivial) (.refl io)⟩
  | budgetMs | app | deployment | ledger | redact _ => exact ends _ io t (.refl t) (.refl io)
  | pushChunk _ | pushLine _ | pushText _ => exact ends _ _ t (.refl t) ⟨rfl, rfl, rfl⟩

/-- Code that reads leaves the ledger as it is, and only adds to the past. -/
theorem Reads.serves {P : α → Prop} {x : Docker α} (reads : Reads P x) (lets : LetsRead rule)
    (ends : ∀ value io' t', P value → Grows t t' → Same io io' → post value st io' t')
    (fails : ∀ e io' t', Grows t t' → Same io io' → fail e st io' t') : Serves rule x post fail st io t := by
  have obeys := reads st
  unfold Meets at obeys
  unfold Serves
  generalize x.toProgram st = p at obeys
  induction p generalizing io t with
  | done out =>
    obtain ⟨⟨e⟩ | ⟨value⟩, st'⟩ := out
    · cases (obeys : st' = st)
      exact fails e io t (.refl t) (.refl io)
    · obtain ⟨rfl, holds⟩ := (obeys : st' = st ∧ P value)
      exact ends value io t holds (.refl t) (.refl io)
  | ask op next ih =>
    obtain ⟨quiet, rest⟩ := obeys
    have later : ∀ answer io' t', Grows t t' → Same io io' →
        Meets Past.see rule (serve (next answer) : Process StepSig StepIo Empty (Except StepError α × State))
          (fun out io t => match out.1 with
            | .ok value => post value out.2 io t
            | .error e => fail e out.2 io t) (fun e _ _ => e.elim) io' t' := by
      intro answer io' t' grows same
      refine ih answer (fun value io'' t'' holds grows' same' => ?_) (fun e io'' t'' grows' same' => ?_) (rest answer)
      · exact ends value io'' t'' holds (grows.trans grows') (same.trans same')
      · exact fails e io'' t'' (grows.trans grows') (same.trans same')
    cases op with
    | io op =>
      have each : ∀ (op : EngineOp) (t : Past), rule t (.engine op) →
          (onEngine op).Obeys Past.see rule (fun answer t' => t' = onPast t ⟨op, answer⟩) t :=
        fun op t allowed => ⟨allowed, fun _ => rfl⟩
      exact meets_bind.mpr (Meets.via each (quiet_answer lets quiet later))
    | host op =>
      exact meets_bind.mpr ⟨lets.2 t op quiet, fun answer => later answer io _ (.one quiet) (.refl io)⟩

end

end Harpoon.Docker
