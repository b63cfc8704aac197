/-!
# Health-check evidence

A check returns what it observed, never a bare "ok" (`health.rs`). `CheckEvidence.validate` derives
the verdict again from the observations: a positive threshold, at least that many trailing accepted
answers from a running container, and a claimed count equal to that trailing run.
-/

namespace Harpoon.Deploy

/-- The status codes a check accepts. -/
inductive StatusClass where
  | success2xx
  | notServerError
  deriving DecidableEq, Repr

def StatusClass.accepts : StatusClass → Nat → Bool
  | .success2xx, status => 200 ≤ status && status < 300
  | .notServerError, status => status < 500

structure HealthSpec where
  path : String
  expect : StatusClass
  intervalMs : Nat
  consecutiveOk : UInt8
  startupDeadlineMs : Nat
  deriving DecidableEq, Repr

/-- What a release is checked with if nothing else is asked for. -/
def HealthSpec.firstTest (path : String) : HealthSpec := ⟨path, .success2xx, 500, 2, 60000⟩

inductive Observation where
  | status (code : Nat)
  | connectFailed (why : String)
  | containerExited (code : Option Int)
  deriving DecidableEq, Repr

/-- One attempt, and whether the container was still running when it finished. -/
structure Attempt where
  atMs : Nat
  observation : Observation
  containerRunning : Bool
  deriving DecidableEq, Repr

inductive Verdict where
  | healthy
  | notHealthy
  | exited
  deriving DecidableEq, Repr

def Verdict.debug : Verdict → String
  | .healthy => "Healthy"
  | .notHealthy => "NotHealthy"
  | .exited => "Exited"

structure CheckEvidence where
  target : String
  expected : String
  expect : StatusClass
  simulated : Bool
  attempts : List Attempt
  consecutiveRequired : UInt8
  consecutiveReached : UInt8
  elapsedMs : Nat
  verdict : Verdict
  scopeNote : String
  deriving DecidableEq, Repr

def attributionMarker : String := "marker-verified"
def attributionPath : String := "path-verified"

namespace CheckEvidence

/-- An attempt that counts as a success against `expect`. -/
def succeeded (expect : StatusClass) (a : Attempt) : Bool :=
  a.containerRunning && match a.observation with
    | .status code => expect.accepts code
    | _ => false

/-- The length of the trailing run of successes. -/
def trailingRun (ev : CheckEvidence) : Nat :=
  (ev.attempts.reverse.takeWhile (succeeded ev.expect)).length

def validate (ev : CheckEvidence) : Except String Unit :=
  if ev.verdict ≠ .healthy then
    .error s!"verdict is {ev.verdict.debug}"
  else if ev.consecutiveRequired = 0 then
    .error "no positive consecutive-success threshold configured"
  else if ev.attempts.isEmpty then
    .error "no health observation was made"
  else if ev.trailingRun < ev.consecutiveRequired.toNat then
    .error s!"observations show {ev.trailingRun} trailing successes while running, {ev.consecutiveRequired} required"
  else if ev.consecutiveReached.toNat ≠ min ev.trailingRun 255 then
    .error s!"claims {ev.consecutiveReached} consecutive successes but observations show {ev.trailingRun}"
  else
    .ok ()

def isHealthy (ev : CheckEvidence) : Bool :=
  match ev.validate with
  | .ok _ => true
  | .error _ => false

/-- The label that ties a healthy answer to its container. Evidence that is not itself healthy has
none, whatever its `expected` text says. -/
def attribution (ev : CheckEvidence) : Option String :=
  if ev.isHealthy then
    [attributionMarker, attributionPath].find? fun l => ("[" ++ l ++ "]").toList.isSuffixOf ev.expected.toList
  else
    none

def lastObservation (ev : CheckEvidence) : Option Observation :=
  ev.attempts.getLast?.map (·.observation)

/-- One line saying what was actually seen. -/
def summary (ev : CheckEvidence) : String :=
  let last := match ev.lastObservation with
    | some (.status s) => s!"last response HTTP {s}"
    | some (.connectFailed e) => s!"last attempt: {e}"
    | some (.containerExited (some c)) => s!"container exited with code {c}"
    | some (.containerExited none) => "container exited"
    | none => "no attempt completed"
  s!"{ev.attempts.length} attempts, {ev.consecutiveReached}/{ev.consecutiveRequired} consecutive successes over {ev.elapsedMs} ms; {last}"

def summaryWithAttribution (ev : CheckEvidence) : String :=
  match ev.attribution with
  | some label => s!"{ev.summary}; attribution: {label}"
  | none => ev.summary

end CheckEvidence

end Harpoon.Deploy

/-!
## The health check

Attempts are made until enough of them in a row succeed, the container exits, or the deadline would pass before the next
one (`run_health` in `health.rs`). The clock, the prober and the waiter are the surroundings; times are milliseconds in
64 bits.
-/

namespace Harpoon.Deploy

/-- What a check runs in: a clock, a prober that is told the time, and a waiter. -/
structure HealthWorld (σ : Type) where
  now : σ → Nat
  attempt : Nat → σ → Attempt × σ
  wait : Nat → σ → σ

/-- A sum in 64 bits. -/
def sumU64 (a b : Nat) : Nat := (a + b) % 0x10000000000000000

def StatusClass.debug : StatusClass → String
  | .success2xx => "Success2xx"
  | .notServerError => "NotServerError"

def localScopeNote : String :=
  "local container only — not a guarantee of behaviour on Vercel or any other environment"

/-- The container stopped: the attempt found it so, or it was not running any more. -/
def Attempt.exited (a : Attempt) : Bool :=
  !a.containerRunning || match a.observation with
    | .containerExited _ => true
    | _ => false

/-- Where the loop is: what was seen, the successes in a row now (in 8 bits) and the most there were. -/
structure HealthLoop (σ : Type) where
  attempts : List Attempt
  run : Nat
  best : Nat
  world : σ

variable {σ : Type} (w : HealthWorld σ) (spec : HealthSpec)

/-- One attempt and what follows from it: a verdict, or a wait. -/
def healthStep (start : Nat) (l : HealthLoop σ) : HealthLoop σ × Option Verdict :=
  let (a, s) := w.attempt (w.now l.world) l.world
  let ok := CheckEvidence.succeeded spec.expect a
  let attempts := l.attempts ++ [a]
  if a.exited then (⟨attempts, l.run, l.best, s⟩, some .exited)
  else
    let run := if ok then min (l.run + 1) 255 else 0
    let best := max l.best run
    if 0 < spec.consecutiveOk ∧ spec.consecutiveOk.toNat ≤ run then (⟨attempts, run, best, s⟩, some .healthy)
    else if sumU64 (w.now s - start) spec.intervalMs > spec.startupDeadlineMs then
      (⟨attempts, run, best, s⟩, some .notHealthy)
    else (⟨attempts, run, best, w.wait spec.intervalMs s⟩, none)

/-- At most so many attempts; `none` when they were not enough for a verdict. -/
def healthLoop (start : Nat) : Nat → HealthLoop σ → Option (HealthLoop σ × Verdict)
  | 0, _ => none
  | fuel + 1, l =>
    match healthStep w spec start l with
    | (l, some verdict) => some (l, verdict)
    | (l, none) => healthLoop start fuel l

/-- What a loop that ended shows. -/
def HealthLoop.evidence (l : HealthLoop σ) (target : String) (verdict : Verdict) (elapsedMs : Nat) : CheckEvidence where
  target
  expected := s!"HTTP {spec.expect.debug}, {spec.consecutiveOk} consecutive"
  expect := spec.expect
  simulated := false
  attempts := l.attempts
  consecutiveRequired := spec.consecutiveOk
  consecutiveReached := UInt8.ofNat (if verdict = .healthy then l.run else l.best)
  elapsedMs
  verdict
  scopeNote := localScopeNote

/-- The evidence of a check, and the surroundings behind it. -/
def runHealth (target : String) (fuel : Nat) (s : σ) : Option (CheckEvidence × σ) :=
  let start := w.now s
  (healthLoop w spec start fuel ⟨[], 0, 0, s⟩).map fun (l, verdict) =>
    (l.evidence spec target verdict (w.now l.world - start), l.world)

end Harpoon.Deploy
