import Harpoon.Laws.Trail

/-!
# What one call of the backend leaves on the trail

A backend does what it likes with its `StepIo`, but only through it: while a call is open it can read
the clock and write ledger records, and nothing else. So one call leaves one record on the trail, and
`exec` adds to it when the call ended.
-/

namespace Harpoon.Deploy

open Interact Process

/-! ## Scripts -/

/-- The operations that a `StepIo` comes to. -/
def ScriptOp : EngineOp → Prop
  | .record _ | .nowMs => True
  | _ => False

/-- Code that uses a `StepIo` only. -/
abbrev Scripts {ρ ε α : Type} (fail : ε → Prop) (x : Engine ρ ε α) : Prop :=
  x.Keeps (fun (_ : Unit) _ => ()) (fun _ => ScriptOp) (fun _ => True) fail

section

variable {ε : Type} {key : ResourceKey} {given : StepError → Prop}

theorem now_scripts {ρ : Type} {fail : ε → Prop} : Scripts fail (now : Engine ρ ε Nat) :=
  fun _ _ _ => ⟨trivial, fun _ => trivial⟩

theorem write_scripts {r : LedgerRecord} : Scripts (fun _ => True) (StepIo.write r) := by
  refine Keeps.get.bind fun io => ?_
  split
  · exact .throw trivial
  · refine Keeps.bind (fun _ _ _ => ⟨trivial, fun _ => trivial⟩) fun answer => ?_
    cases answer with
    | acknowledged => exact .modify
    | failed e stored => exact .throw trivial

theorem intend_scripts {disposition : Disposition} :
    Scripts (fun _ => True) (StepIo.intend key disposition) :=
  now_scripts.bind fun _ => Keeps.get.bind fun _ => write_scripts.bind fun _ => .pure

theorem receipt_scripts {intent : Intent} {id : String} :
    Scripts (fun _ => True) (StepIo.receipt intent id) :=
  now_scripts.bind fun _ => Keeps.get.bind fun _ => write_scripts

theorem cleanupAttempt_scripts : Scripts (fun _ => True) (StepIo.cleanupAttempt key) :=
  now_scripts.bind fun _ => Keeps.get.bind fun _ => write_scripts

theorem cleanupResult_scripts {outcome : CleanupOutcome} :
    Scripts (fun _ => True) (StepIo.cleanupResult key outcome) :=
  now_scripts.bind fun _ => Keeps.get.bind fun _ => write_scripts

/-- One use of a `StepIo`, whose failure the backend sees and the engine does not. -/
theorem answer_scripts (op : IoOp) {fail : ε → Prop} :
    Scripts fail (StepIo.answer op : Engine StepIo ε op.Answer) := by
  cases op with
  | intend key disposition => exact intend_scripts.attempt
  | receipt intent id => exact receipt_scripts.attempt
  | cleanupAttempt key => exact cleanupAttempt_scripts.attempt
  | cleanupResult key outcome => exact cleanupResult_scripts.attempt
  | leasePort hostPort =>
    exact (intend_scripts.bind fun _ => receipt_scripts.bind fun _ => .pure).attempt
  | releaseLease hostPort =>
    exact (cleanupAttempt_scripts.bind fun _ => cleanupResult_scripts).attempt
  | nowMs => exact now_scripts
  | budgetMs | app | deployment | ledger | redact _ => exact Keeps.get.bind fun _ => .pure
  | pushChunk _ | pushLine _ | pushText _ => exact .modify

/-- Whatever a backend does during one call, it does with its `StepIo`. -/
theorem runScript_scripts (script : Script) {fail : ε → Prop} :
    Scripts fail (StepIo.runScript script : Engine StepIo ε Unit) := by
  induction script with
  | done value => exact .pure
  | ask op next ih => exact (answer_scripts op).bind ih

end

/-! ## One call -/

section

variable (cfg : RunConfig) (previous : Option PreviousRelease) (d₀ : Deployment)

theorem rule_clock {t : Trail} {c : Call} {budgetMs ms : Nat}
    (allowed : Rule cfg previous d₀ t (.call c budgetMs)) :
    Rule cfg previous d₀ { t with clock := ms } (.call c budgetMs) := by
  cases c <;> exact allowed

/-- While a call is open, the use of a `StepIo` moves only the clock. -/
theorem script_simulates {t : Trail} (open_ : t.inCall = true) :
    Simulates (fun (_ : Unit) _ => ()) (fun _ => ScriptOp) Trail.see (Rule cfg previous d₀)
      fun _ t' => ∃ ms, t' = { t with clock := ms } := by
  refine ⟨fun _ t' op _ allowed => ?_, ?_⟩
  · cases op with
    | record _ | nowMs => trivial
    | _ => cases allowed
  · rintro _ _ ⟨op, answer⟩ ⟨ms, rfl⟩ allowed
    cases op with
    | record r =>
      cases answer with
      | acknowledged => exact ⟨ms, rfl⟩
      | failed e stored => exact ⟨ms, if_pos open_⟩
    | nowMs =>
      refine ⟨answer, ?_⟩
      -- The open call has not returned, so the reading is none of its.
      obtain ⟨acked, stored, lost, clock, calls⟩ := t
      cases calls with
      | nil => rfl
      | cons c cs =>
        have unread : c.read answer = c := by
          have running : c.returned.isNone = true := open_
          rw [CallRecord.read, Option.isNone_iff_eq_none.mp running]
          rfl
        show Trail.mk _ _ _ _ (c.read answer :: cs) = _
        rw [unread]
    | _ => cases allowed

/-- The trail after a call that returned. -/
def Trail.called (t : Trail) (c : Call) (budgetMs : Nat) (res : Except StepError c.Ret)
    (accepts : Option Bool) (ms : Nat) : Trail :=
  { t with
    clock := ms
    lost := t.lost || fatalIn res
    calls := ⟨c, budgetMs, t.clock, some ⟨c, res⟩, none, accepts⟩ :: t.calls }

/-- `f` makes the call `c`, once; `sees` relates its outcome to what the call returned and to what was
said of simulated evidence. -/
def CallsOnce {α : Type} (c : Call) (f : StepFn α)
    (sees : Except StepError α → Except StepError c.Ret → Option Bool → Prop) : Prop :=
  ∀ io t, Rule cfg previous d₀ t (.call c io.budgetMs) →
    Meets Trail.see (Rule cfg previous d₀) f
      (fun v _ t' => ∃ res accepts ms, sees (.ok v) res accepts ∧
        t' = t.called c io.budgetMs res accepts ms)
      (fun e _ t' => ∃ res accepts ms, sees (.error e) res accepts ∧
        t' = t.called c io.budgetMs res accepts ms) io t

variable {cfg previous d₀} {α β : Type} {c : Call}

/-- The outcome is what the call returned, with its value changed by `g`. -/
abbrev Plain (g : c.Ret → α) (got : Except StepError α) (res : Except StepError c.Ret)
    (_ : Option Bool) : Prop := got = res.map g

theorem callBackend_once : CallsOnce cfg previous d₀ c (StepIo.callBackend c) (Plain id) := by
  intro io t allowed
  refine meets_bind.mpr (meets_get.mpr (meets_bind.mpr (meets_ask.mpr ⟨allowed, fun script => ?_⟩)))
  have scripts : Scripts (fun _ => False) (StepIo.runScript script : Engine StepIo StepError Unit) :=
    runScript_scripts script
  have ran := scripts.simulate (r := io)
    (script_simulates cfg previous d₀
      (t := { t with calls := ⟨c, io.budgetMs, t.clock, none, none, none⟩ :: t.calls }) rfl)
    (s := ()) trivial ⟨t.clock, rfl⟩
  refine meets_bind.mpr (ran.mono ?_ fun e _ _ h => h.1.elim)
  rintro _ io' _ ⟨_, _, ms, rfl⟩
  refine meets_bind.mpr (meets_ask.mpr ⟨trivial, fun res => meets_ofExcept ?_ ?_⟩)
  · rintro v rfl
    exact ⟨.ok v, none, ms, rfl, rfl⟩
  · rintro e rfl
    exact ⟨.error e, none, ms, rfl, rfl⟩

/-- A call whose value is changed. -/
theorem mapped_once {g : c.Ret → α} :
    CallsOnce cfg previous d₀ c (StepIo.callBackend c >>= fun v => pure (g v)) (Plain g) := by
  intro io t allowed
  refine meets_bind.mpr ((callBackend_once io t allowed).mono ?_ ?_)
  · rintro v _ _ ⟨res, accepts, ms, saw, rfl⟩
    cases res with
    | ok w => cases saw; exact ⟨.ok w, accepts, ms, rfl, rfl⟩
    | error e => cases saw
  · rintro e _ _ ⟨res, accepts, ms, saw, rfl⟩
    cases res with
    | ok w => cases saw
    | error e => cases saw; exact ⟨.error e, accepts, ms, rfl, rfl⟩

theorem preliminaryStep_once :
    CallsOnce cfg previous d₀ .preliminaryCheck Run.preliminaryStep fun got res accepts =>
      ∃ a, accepts = some a ∧ got = Run.judge res a := by
  intro io t allowed
  refine meets_bind.mpr (meets_attempt.mpr ((callBackend_once io t allowed).mono ?_ ?_)) <;>
  · rintro _ _ _ ⟨res, _, ms, saw, rfl⟩
    cases res <;> cases saw
    refine meets_bind.mpr (meets_ask.mpr ⟨trivial, fun a => meets_ofExcept ?_ ?_⟩) <;>
    · intro _ judged
      exact ⟨_, some a, ms, ⟨a, rfl, judged.symm⟩, rfl⟩

/-- A judged result carries a failed write exactly if the call's does. -/
theorem fatalIn_judge {res : Except StepError CheckEvidence} {a : Bool} :
    fatalIn (Run.judge res a) = fatalIn res := by
  cases res with
  | error e => rfl
  | ok ev =>
    show fatalIn (if _ then _ else _) = false
    split
    · rfl
    · split <;> rfl

theorem fatalIn_map {res : Except StepError α} {g : α → β} : fatalIn (res.map g) = fatalIn res := by
  cases res <;> rfl

/-! ## `exec` -/

/-- One call was made between the two trails, and ended. -/
structure Called (c : Call) (budgetMs : Nat) (t t' : Trail) (record : CallRecord) : Prop where
  call : record.call = c
  budget : record.budgetMs = budgetMs
  ended : record.endedMs.isSome = true
  calls : t'.calls = record :: t.calls
  acked : t'.acked = t.acked
  stored : t'.stored = t.stored

/-- What `exec` made of a call: it trusts a value that came within the budget. -/
def Trusted (sees : Except StepError α → Except StepError c.Ret → Option Bool → Prop)
    (out : Outcome α) (record : CallRecord) : Prop :=
  ∃ got res, sees got res record.accepts ∧ record.returned = some ⟨c, res⟩ ∧
    (∀ v, out.res = .ok v → got = .ok v ∧ record.Within) ∧
    (∀ e, out.res = .error e → got = .error e ∨ ¬ record.Within)

variable {r : Run} {t : Trail} {step : Step} {budget : Nat} {f : StepFn α}
  {sees : Except StepError α → Except StepError c.Ret → Option Bool → Prop}
  {post : Outcome α → Run → Trail → Prop} {fail : EngineError → Run → Trail → Prop}

/-- Between calls, reading the clock moves only the clock. -/
theorem see_now_of_ended (ended : ∀ c ∈ t.calls, c.endedMs.isSome = true) (ms : Nat) :
    t.see ⟨.nowMs, ms⟩ = { t with clock := ms } := by
  obtain ⟨acked, stored, lost, clock, calls⟩ := t
  cases calls with
  | nil => rfl
  | cons c cs =>
    have unread : c.read ms = c := by
      have finished := ended c List.mem_cons_self
      obtain ⟨ended, h⟩ := Option.isSome_iff_exists.mp finished
      rw [CallRecord.read, h, Option.isNone_some, Bool.and_false, if_neg Bool.false_ne_true]
    show Trail.mk _ _ _ _ (c.read ms :: cs) = _
    rw [unread]

theorem exec_meets (once : CallsOnce cfg previous d₀ c f sees)
    (honest : ∀ got res accepts, sees got res accepts → fatalIn got = fatalIn res)
    (ended : ∀ c ∈ t.calls, c.endedMs.isSome = true)
    (allowed : Rule cfg previous d₀ t (.call c budget))
    (returned : ∀ out r' t' record, r'.d = r.d → Called c budget t t' record → t'.lost = t.lost →
      Trusted sees out record → post out r' t')
    (fatal : ∀ j r' t' record, r'.d = r.d → Called c budget t t' record → fail (.journal j) r' t') :
    Meets Trail.see (Rule cfg previous d₀) (Run.exec cfg step budget f) post fail r t := by
  refine meets_bind.mpr (meets_ask.mpr ⟨trivial, fun start => ?_⟩)
  rw [see_now_of_ended ended]
  refine meets_bind.mpr (meets_get.mpr (meets_bind.mpr ?_))
  refine meets_embed_of (Q := fun got _ t' => ∃ res accepts ms, sees got res accepts ∧
    t' = { t with clock := start }.called c budget res accepts ms)
    (once ⟨budget, .new cfg.logLimits cfg.redactor, r.ledger, r.d.applicationId, r.d.id⟩
      { t with clock := start } (rule_clock cfg previous d₀ allowed)) ?_
  -- The call returned `res`, of which `f` made `got`.
  rintro got io _ ⟨res, accepts, ms, saw, rfl⟩
  refine meets_bind.mpr (meets_modify.mpr (meets_bind.mpr (meets_ask.mpr ⟨trivial, fun now => ?_⟩)))
  have called : Called c budget t
      (({ t with clock := start }.called c budget res accepts ms).see ⟨.nowMs, now⟩)
      ⟨c, budget, start, some ⟨c, res⟩, some now, accepts⟩ := ⟨rfl, rfl, rfl, rfl, rfl, rfl⟩
  refine meets_bind.mpr (meets_modify.mpr ?_)
  have kept : ∀ r' : Run, (if 0 < io.log.capture.summary.linesSeen ∨ io.log.capture.summary.withheld
      then { r' with logs := r'.logs ++ [(step, io.log.capture)] } else r').d = r'.d := by
    intro r'; split <;> rfl
  have sane := honest _ _ _ saw
  cases got with
  | error e =>
    dsimp only
    cases journal : e.fatal with
    | some j => exact fatal j _ _ _ (kept _) called
    | none =>
      rw [fatalIn, journal] at sane
      refine returned _ _ _ _ (kept _) called ?_ ⟨.error e, res, saw, rfl, ?_, ?_⟩
      · show (t.lost || fatalIn res) = t.lost
        rw [← sane]; exact Bool.or_false _
      · intro v h; cases h
      · intro e' h; cases h; exact .inl rfl
  | ok v =>
    have lost : (t.lost || fatalIn res) = t.lost := by rw [← sane]; exact Bool.or_false _
    dsimp only
    split
    next late =>
      refine returned _ _ _ _ (kept _) called lost ⟨.ok v, res, saw, rfl, ?_, ?_⟩
      · intro v' h; cases h
      · rintro e' _
        refine .inr fun ⟨ended, h, inTime⟩ => ?_
        cases h
        exact absurd inTime (Nat.not_le.mpr late)
    next early =>
      refine returned _ _ _ _ (kept _) called lost ⟨.ok v, res, saw, rfl, ?_, ?_⟩
      · intro v' h; cases h; exact ⟨rfl, now, rfl, Nat.not_lt.mp early⟩
      · intro e' h; cases h

end

end Harpoon.Deploy
