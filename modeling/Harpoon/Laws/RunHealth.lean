import Harpoon.Deploy.Health

/-!
# What a health check concludes

The verdict of a check agrees with what its evidence shows, the first run of the required length ends it, and an attempt
that failed or found the container stopped counts for nothing (`Concluded`). Where the clock is paced by the waiter there
are finitely many attempts and none starts after the deadline; an interval of nothing, a clock that goes back and a sum
past 64 bits each break that.
-/

namespace Harpoon.Deploy

open CheckEvidence

/-- How many of the last attempts in a row succeeded. -/
def trailing (expect : StatusClass) (attempts : List Attempt) : Nat :=
  (attempts.reverse.takeWhile (succeeded expect)).length

@[simp] theorem trailing_nil (expect : StatusClass) : trailing expect [] = 0 := rfl

theorem trailing_concat (expect : StatusClass) (attempts : List Attempt) (a : Attempt) :
    trailing expect (attempts ++ [a]) = if succeeded expect a then trailing expect attempts + 1 else 0 := by
  unfold trailing
  rw [List.reverse_append, List.reverse_singleton, List.singleton_append, List.takeWhile_cons]
  split <;> rfl

/-- An attempt that found the container stopped is no success. -/
theorem Attempt.exited_not_succeeded {a : Attempt} (h : a.exited = true) (expect : StatusClass) :
    succeeded expect a = false := by
  unfold Attempt.exited at h
  unfold succeeded
  cases running : a.containerRunning with
  | false => rfl
  | true =>
    cases seen : a.observation with
    | status code => simp [running, seen] at h
    | connectFailed why => rfl
    | containerExited code => rfl

section
variable {σ : Type} (w : HealthWorld σ) (spec : HealthSpec)

/-- The count after an attempt on a running container. -/
def HealthLoop.counted (l : HealthLoop σ) (spec : HealthSpec) (a : Attempt) : Nat :=
  if succeeded spec.expect a then min (l.run + 1) 255 else 0

/-- The state an attempt leaves, its world apart. -/
def HealthLoop.after (l : HealthLoop σ) (spec : HealthSpec) (a : Attempt) (s : σ) : HealthLoop σ :=
  ⟨l.attempts ++ [a], l.counted spec a, max l.best (l.counted spec a), s⟩

/-- The required run is there. -/
def HealthSpec.reached (spec : HealthSpec) (run : Nat) : Prop :=
  0 < spec.consecutiveOk ∧ spec.consecutiveOk.toNat ≤ run

/-- The four ways a step goes. -/
theorem healthStep_cases (start : Nat) (l : HealthLoop σ) {a : Attempt} {s : σ}
    (h : w.attempt (w.now l.world) l.world = (a, s)) :
    (a.exited = true ∧ healthStep w spec start l = (⟨l.attempts ++ [a], l.run, l.best, s⟩, some .exited)) ∨
    (a.exited = false ∧ spec.reached (l.counted spec a) ∧
      healthStep w spec start l = (l.after spec a s, some .healthy)) ∨
    (a.exited = false ∧ ¬ spec.reached (l.counted spec a) ∧
      sumU64 (w.now s - start) spec.intervalMs > spec.startupDeadlineMs ∧
      healthStep w spec start l = (l.after spec a s, some .notHealthy)) ∨
    (a.exited = false ∧ ¬ spec.reached (l.counted spec a) ∧
      sumU64 (w.now s - start) spec.intervalMs ≤ spec.startupDeadlineMs ∧
      healthStep w spec start l = (l.after spec a (w.wait spec.intervalMs s), none)) := by
  unfold healthStep
  simp only [h]
  by_cases exited : a.exited = true
  · exact .inl ⟨exited, if_pos exited⟩
  have stays : a.exited = false := Bool.not_eq_true _ ▸ exited
  rw [if_neg exited]
  by_cases reached : spec.reached (l.counted spec a)
  · exact .inr (.inl ⟨stays, reached, if_pos reached⟩)
  by_cases late : sumU64 (w.now s - start) spec.intervalMs > spec.startupDeadlineMs
  · exact .inr (.inr (.inl ⟨stays, reached, late, (if_neg reached).trans (if_pos late)⟩))
  · exact .inr (.inr (.inr ⟨stays, reached, Nat.le_of_not_lt late, (if_neg reached).trans (if_neg late)⟩))

/-- The loop goes on: nothing exited so far, and nowhere were there enough successes in a row. -/
structure HealthLoop.Counting (spec : HealthSpec) (l : HealthLoop σ) : Prop where
  running : ∀ a ∈ l.attempts, a.exited = false
  run : l.run = min (trailing spec.expect l.attempts) 255
  reaches : ∃ p, p <+: l.attempts ∧ l.best = min (trailing spec.expect p) 255
  bounds : ∀ p, p <+: l.attempts → min (trailing spec.expect p) 255 ≤ l.best
  short : ∀ p, p <+: l.attempts → ¬ spec.reached (trailing spec.expect p)

/-- What a verdict goes with: an exit only at the end, and no earlier run of the required length. -/
structure HealthLoop.Concluded (spec : HealthSpec) (l : HealthLoop σ) (verdict : Verdict) : Prop where
  running : ∀ a ∈ l.attempts.dropLast, a.exited = false
  exited : verdict = .exited ↔ ∃ a ∈ l.attempts, a.exited = true
  healthy : verdict = .healthy ↔ spec.reached (trailing spec.expect l.attempts)
  run : verdict = .healthy → l.run = min (trailing spec.expect l.attempts) 255
  reaches : ∃ p, p <+: l.attempts ∧ l.best = min (trailing spec.expect p) 255
  bounds : ∀ p, p <+: l.attempts → min (trailing spec.expect p) 255 ≤ l.best
  short : ∀ p, p <+: l.attempts → p ≠ l.attempts → ¬ spec.reached (trailing spec.expect p)
  made : l.attempts ≠ []

namespace HealthLoop
variable {w spec} {l : HealthLoop σ}

theorem counting_start (s : σ) : Counting spec (⟨[], 0, 0, s⟩ : HealthLoop σ) where
  running := fun a mem => absurd mem List.not_mem_nil
  run := rfl
  reaches := ⟨[], List.prefix_rfl, rfl⟩
  bounds := fun p sub => by rw [List.prefix_nil.mp sub]; exact Nat.zero_le _
  short := fun p sub reached => by
    rw [List.prefix_nil.mp sub] at reached
    have none : spec.consecutiveOk.toNat ≤ 0 := reached.2
    have some : 0 < spec.consecutiveOk.toNat := UInt8.lt_iff_toNat_lt.mp reached.1
    omega

/-- The count is the trailing run, in 8 bits. -/
theorem Counting.counted_eq (h : Counting spec l) (a : Attempt) :
    l.counted spec a = min (trailing spec.expect (l.attempts ++ [a])) 255 := by
  unfold counted
  rw [trailing_concat, h.run]
  split
  · omega
  · rfl

/-- A requirement fits in 8 bits, so the cap does not hide it. -/
theorem reached_min (n : Nat) : spec.reached (min n 255) ↔ spec.reached n := by
  have small : spec.consecutiveOk.toNat ≤ 255 := Nat.le_of_lt_succ spec.consecutiveOk.toNat_lt
  unfold HealthSpec.reached
  constructor
  · exact fun h => ⟨h.1, by have := h.2; omega⟩
  · exact fun h => ⟨h.1, by have := h.2; omega⟩

theorem Counting.reached_iff (h : Counting spec l) (a : Attempt) :
    spec.reached (l.counted spec a) ↔ spec.reached (trailing spec.expect (l.attempts ++ [a])) := by
  rw [h.counted_eq a, reached_min]

theorem Counting.after_bounds (h : Counting spec l) (a : Attempt) (s : σ) :
    ∀ p, p <+: l.attempts ++ [a] → min (trailing spec.expect p) 255 ≤ (l.after spec a s).best := by
  intro p sub
  have best : (l.after spec a s).best = max l.best (l.counted spec a) := rfl
  rcases List.prefix_concat_iff.mp sub with rfl | sub
  · rw [best, h.counted_eq a]
    exact Nat.le_max_right ..
  · rw [best]
    exact Nat.le_trans (h.bounds p sub) (Nat.le_max_left ..)

theorem Counting.after_reaches (h : Counting spec l) (a : Attempt) (s : σ) :
    ∃ p, p <+: l.attempts ++ [a] ∧ (l.after spec a s).best = min (trailing spec.expect p) 255 := by
  have best : (l.after spec a s).best = max l.best (l.counted spec a) := rfl
  obtain ⟨p, sub, reaches⟩ := h.reaches
  rcases Nat.le_total l.best (l.counted spec a) with more | less
  · exact ⟨l.attempts ++ [a], List.prefix_rfl, by rw [best, Nat.max_eq_right more, h.counted_eq a]⟩
  · exact ⟨p, sub.trans (List.prefix_append ..), by rw [best, Nat.max_eq_left less, reaches]⟩

theorem Counting.after_running (h : Counting spec l) {a : Attempt} (stays : a.exited = false) :
    ∀ b ∈ l.attempts ++ [a], b.exited = false := by
  intro b mem
  rcases List.mem_append.mp mem with mem | mem
  · exact h.running b mem
  · rw [List.mem_singleton.mp mem]
    exact stays

/-- An attempt that was not enough keeps the loop counting. -/
theorem Counting.after (h : Counting spec l) {a : Attempt} (stays : a.exited = false)
    (few : ¬ spec.reached (l.counted spec a)) (s : σ) : Counting spec (l.after spec a s) where
  running := h.after_running stays
  run := h.counted_eq a
  reaches := h.after_reaches a s
  bounds := h.after_bounds a s
  short := fun p sub reached => by
    rcases List.prefix_concat_iff.mp sub with rfl | sub
    · exact few ((h.reached_iff a).mpr reached)
    · exact h.short p sub reached

theorem Counting.concluded_exited (h : Counting spec l) {a : Attempt} (exited : a.exited = true) (s : σ) :
    Concluded spec ⟨l.attempts ++ [a], l.run, l.best, s⟩ .exited where
  running := by rw [List.dropLast_concat]; exact h.running
  exited := ⟨fun _ => ⟨a, List.mem_append_right _ (List.mem_singleton_self a), exited⟩, fun _ => rfl⟩
  healthy := by
    refine ⟨fun eq => (by cases eq), fun reached => ?_⟩
    rw [trailing_concat, if_neg (by rw [Attempt.exited_not_succeeded exited]; decide)] at reached
    have none : spec.consecutiveOk.toNat ≤ 0 := reached.2
    have some : 0 < spec.consecutiveOk.toNat := UInt8.lt_iff_toNat_lt.mp reached.1
    omega
  run := fun eq => by cases eq
  reaches :=
    have ⟨p, sub, reaches⟩ := h.reaches
    ⟨p, sub.trans (List.prefix_append ..), reaches⟩
  bounds := fun p sub => by
    rcases List.prefix_concat_iff.mp sub with rfl | sub
    · rw [trailing_concat, if_neg (by rw [Attempt.exited_not_succeeded exited]; decide)]
      exact Nat.zero_le _
    · exact h.bounds p sub
  short := fun p sub proper => by
    rcases List.prefix_concat_iff.mp sub with rfl | sub
    · exact absurd rfl proper
    · exact h.short p sub
  made := List.append_ne_nil_of_right_ne_nil _ (List.cons_ne_nil _ _)

/-- A verdict on a running container, healthy exactly when there was enough. -/
theorem Counting.concluded (h : Counting spec l) {a : Attempt} (stays : a.exited = false) (s : σ) {verdict : Verdict}
    (notExited : verdict ≠ .exited) (healthy : verdict = .healthy ↔ spec.reached (l.counted spec a)) :
    Concluded spec (l.after spec a s) verdict where
  running := fun b mem => h.after_running stays b (List.dropLast_subset _ mem)
  exited := by
    refine ⟨fun eq => absurd eq notExited, fun ⟨b, mem, exited⟩ => ?_⟩
    rw [h.after_running stays b mem] at exited
    cases exited
  healthy := healthy.trans (h.reached_iff a)
  run := fun _ => h.counted_eq a
  reaches := h.after_reaches a s
  bounds := h.after_bounds a s
  short := fun p sub proper => by
    rcases List.prefix_concat_iff.mp sub with rfl | sub
    · exact absurd rfl proper
    · exact h.short p sub
  made := List.append_ne_nil_of_right_ne_nil _ (List.cons_ne_nil _ _)

/-- One step: the loop keeps counting, or concludes. -/
theorem Counting.step (h : Counting spec l) (start : Nat) :
    match healthStep w spec start l with
    | (l, none) => Counting spec l
    | (l, some verdict) => Concluded spec l verdict := by
  obtain ⟨a, s, attempt⟩ : ∃ a s, w.attempt (w.now l.world) l.world = (a, s) := ⟨_, _, rfl⟩
  obtain ⟨exited, eq⟩ | ⟨stays, reached, eq⟩ | ⟨stays, few, -, eq⟩ | ⟨stays, few, -, eq⟩ :=
    healthStep_cases w spec start l attempt
  · rw [eq]
    exact h.concluded_exited exited s
  · rw [eq]
    exact h.concluded stays s (fun eq => by cases eq) ⟨fun _ => reached, fun _ => rfl⟩
  · rw [eq]
    exact h.concluded stays s (fun eq => by cases eq) ⟨fun eq => (by cases eq), fun reached => absurd reached few⟩
  · rw [eq]
    exact h.after stays few _

/-- A whole loop concludes. -/
theorem Counting.loop {start : Nat} : ∀ {fuel : Nat} {l : HealthLoop σ}, Counting spec l →
    ∀ {l' : HealthLoop σ} {verdict : Verdict}, healthLoop w spec start fuel l = some (l', verdict) →
    Concluded spec l' verdict
  | 0, _, _, _, _, ran => by cases ran
  | fuel + 1, l, h, l', verdict, ran => by
    have step := h.step (w := w) start
    unfold healthLoop at ran
    revert step ran
    rcases healthStep w spec start l with ⟨next, ended | ended⟩
    · exact fun counting ran => Counting.loop counting ran
    · intro concluded ran
      cases ran
      exact concluded

/-- What attempts and waits keep, a whole loop keeps. -/
theorem loop_keeps {I : List Attempt → σ → Prop}
    (attempt : ∀ attempts s, I attempts s →
      I (attempts ++ [(w.attempt (w.now s) s).1]) (w.attempt (w.now s) s).2)
    (wait : ∀ attempts s, I attempts s → I attempts (w.wait spec.intervalMs s)) {start : Nat} :
    ∀ {fuel : Nat} {l l' : HealthLoop σ} {verdict : Verdict}, I l.attempts l.world →
      healthLoop w spec start fuel l = some (l', verdict) → I l'.attempts l'.world
  | 0, _, _, _, _, ran => by cases ran
  | fuel + 1, l, l', verdict, h, ran => by
    have kept : I (healthStep w spec start l).1.attempts (healthStep w spec start l).1.world := by
      have made := attempt l.attempts l.world h
      obtain ⟨-, eq⟩ | ⟨-, -, eq⟩ | ⟨-, -, -, eq⟩ | ⟨-, -, -, eq⟩ := healthStep_cases w spec start l rfl
      · rw [eq]; exact made
      · rw [eq]; exact made
      · rw [eq]; exact made
      · rw [eq]; exact wait _ _ made
    unfold healthLoop at ran
    revert kept ran
    rcases healthStep w spec start l with ⟨next, ended | ended⟩
    · exact fun kept ran => loop_keeps attempt wait kept ran
    · intro kept ran
      cases ran
      exact kept

/-- A concluded loop's counts fit in 8 bits. -/
theorem Concluded.best_lt {verdict : Verdict} (h : Concluded spec l verdict) : l.best < 256 := by
  obtain ⟨p, -, reaches⟩ := h.reaches
  omega

end HealthLoop

/-- What a check's evidence says about its attempts. -/
structure CheckEvidence.Outcome (spec : HealthSpec) (ev : CheckEvidence) : Prop where
  /-- The verdict is the one the observations support. -/
  agrees : ev.verdict = .healthy ↔ ev.validate = .ok ()
  healthy : ev.verdict = .healthy ↔ spec.reached (trailing spec.expect ev.attempts)
  /-- It stopped at the first run of the required length. -/
  first : ∀ p, p <+: ev.attempts → p ≠ ev.attempts → ¬ spec.reached (trailing spec.expect p)
  /-- An exit ends the check, and nothing else does so with that verdict. -/
  running : ∀ a ∈ ev.attempts.dropLast, a.exited = false
  exited : ev.verdict = .exited ↔ ∃ a ∈ ev.attempts, a.exited = true
  /-- The count is the trailing run of a healthy check, and the longest run of any other. -/
  counted : ev.verdict = .healthy → ev.consecutiveReached.toNat = min (trailing spec.expect ev.attempts) 255
  longest : ev.verdict ≠ .healthy →
    ∃ p, p <+: ev.attempts ∧ ev.consecutiveReached.toNat = min (trailing spec.expect p) 255
  bounds : ∀ p, p <+: ev.attempts → min (trailing spec.expect p) 255 ≤ ev.consecutiveReached.toNat

variable {w spec}

theorem HealthLoop.Concluded.toNat_reached {l : HealthLoop σ} {verdict : Verdict} (h : l.Concluded spec verdict)
    (target : String) (ms : Nat) : (l.evidence spec target verdict ms).consecutiveReached.toNat =
      if verdict = .healthy then l.run else l.best := by
  apply Nat.mod_eq_of_lt
  split
  next healthy => rw [h.run healthy]; omega
  next => exact h.best_lt

/-- Evidence validates exactly when its verdict is healthy, if that verdict goes with enough successes and
their count. -/
theorem CheckEvidence.validate_iff {ev : CheckEvidence} (made : ev.attempts ≠ [])
    (enough : ev.verdict = .healthy → 0 < ev.consecutiveRequired ∧ ev.consecutiveRequired.toNat ≤ ev.trailingRun)
    (count : ev.verdict = .healthy → ev.consecutiveReached.toNat = min ev.trailingRun 255) :
    ev.verdict = .healthy ↔ ev.validate = .ok () := by
  constructor
  · intro healthy
    have positive : ev.consecutiveRequired ≠ 0 := by
      intro zero
      have more := (enough healthy).1
      rw [zero] at more
      exact absurd more (by decide)
    have some : ¬ ev.attempts.isEmpty = true := fun empty => made (List.isEmpty_iff.mp empty)
    unfold validate
    rw [if_neg (fun sick => sick healthy), if_neg positive, if_neg some, if_neg (Nat.not_lt.mpr (enough healthy).2),
      if_neg (fun off => off (count healthy))]
  · intro valid
    unfold validate at valid
    split at valid
    · cases valid
    next healthy => exact Decidable.not_not.mp healthy

/-- The evidence of any check that ended. -/
theorem runHealth_outcome {target : String} {fuel : Nat} {s s' : σ} {ev : CheckEvidence}
    (ran : runHealth w spec target fuel s = some (ev, s')) : ev.Outcome spec := by
  obtain ⟨⟨l, verdict⟩, loop, eq⟩ := Option.map_eq_some_iff.mp ran
  have h := (HealthLoop.counting_start s).loop loop
  have reached := h.toNat_reached target (w.now l.world - w.now s)
  cases eq
  have count : verdict = .healthy → (l.evidence spec target verdict (w.now l.world - w.now s)).consecutiveReached.toNat =
      min (trailing spec.expect l.attempts) 255 := by
    intro healthy
    rw [reached, if_pos healthy, h.run healthy]
  refine ⟨CheckEvidence.validate_iff h.made (fun healthy => h.healthy.mp healthy) count, h.healthy, h.short, h.running,
    h.exited, count, fun sick => ?_, fun p sub => ?_⟩
  · obtain ⟨p, sub, reaches⟩ := h.reaches
    exact ⟨p, sub, reached.trans ((if_neg sick).trans reaches)⟩
  · rw [reached]
    split
    next healthy =>
      rw [h.run healthy]
      by_cases whole : p = l.attempts
      · exact Nat.le_of_eq (congrArg (fun p => min (trailing spec.expect p) 255) whole)
      · have enough := h.healthy.mp healthy
        have fewer : ¬ spec.consecutiveOk.toNat ≤ trailing spec.expect p := fun more =>
          h.short p sub whole ⟨enough.1, more⟩
        have more := enough.2
        omega
    next => exact h.bounds p sub

/-- What attempts and waits keep, a check keeps. -/
theorem runHealth_keeps {I : List Attempt → σ → Prop} {target : String} {fuel : Nat} {s s' : σ} {ev : CheckEvidence}
    (attempt : ∀ attempts s, I attempts s →
      I (attempts ++ [(w.attempt (w.now s) s).1]) (w.attempt (w.now s) s).2)
    (wait : ∀ attempts s, I attempts s → I attempts (w.wait spec.intervalMs s)) (start : I [] s)
    (ran : runHealth w spec target fuel s = some (ev, s')) : I ev.attempts s' := by
  obtain ⟨⟨l, verdict⟩, loop, eq⟩ := Option.map_eq_some_iff.mp ran
  cases eq
  exact HealthLoop.loop_keeps attempt wait start loop

/-- The same surroundings, and when each attempt started. -/
def HealthWorld.logged (w : HealthWorld σ) : HealthWorld (σ × List Nat) where
  now s := w.now s.1
  attempt time s := ((w.attempt time s.1).1, ((w.attempt time s.1).2, s.2 ++ [time]))
  wait ms s := (w.wait ms s.1, s.2)

/-- A loop in the logged surroundings. -/
def HealthLoop.log (l : HealthLoop σ) (times : List Nat) : HealthLoop (σ × List Nat) :=
  ⟨l.attempts, l.run, l.best, (l.world, times)⟩

/-- The log follows a step and decides nothing. -/
theorem healthStep_logged (start : Nat) (l : HealthLoop σ) (times : List Nat) :
    healthStep w.logged spec start (l.log times) =
      ((healthStep w spec start l).1.log (times ++ [w.now l.world]), (healthStep w spec start l).2) := by
  obtain ⟨a, s, attempt⟩ : ∃ a s, w.attempt (w.now l.world) l.world = (a, s) := ⟨_, _, rfl⟩
  unfold healthStep
  simp only [HealthWorld.logged, HealthLoop.log, attempt]
  -- the exit, whether the attempt counts, whether that is enough, and whether there is time for another
  split
  · rfl
  split
  all_goals
    split
    · rfl
    split <;> rfl

/-- The clock moves forward, the waiter moves it by the interval, and the times stay within 64 bits. -/
structure HealthWorld.Paced (w : HealthWorld σ) (spec : HealthSpec) (start : Nat) : Prop where
  forward : ∀ s, w.now s ≤ w.now (w.attempt (w.now s) s).2
  waits : ∀ s, w.now s + spec.intervalMs < 0x10000000000000000 →
    w.now (w.wait spec.intervalMs s) = w.now s + spec.intervalMs
  fits : ∀ s, w.now s ≤ start + spec.startupDeadlineMs →
    w.now (w.attempt (w.now s) s).2 - start + spec.intervalMs < 0x10000000000000000
  deadline : start + spec.startupDeadlineMs < 0x10000000000000000

/-- Attempts that started in time, an interval apart at least. -/
structure HealthLoop.Timed (w : HealthWorld σ) (spec : HealthSpec) (start : Nat) (l : HealthLoop σ) (times : List Nat) :
    Prop where
  apart : start + times.length * spec.intervalMs ≤ w.now l.world
  early : w.now l.world ≤ start + spec.startupDeadlineMs
  each : ∀ t ∈ times, t ≤ start + spec.startupDeadlineMs
  length : times.length = l.attempts.length

/-- The attempts of a check: no more than fit before the deadline, and none started after it. -/
structure Punctual (spec : HealthSpec) (start : Nat) (attempts : List Attempt) (times : List Nat) : Prop where
  few : times.length ≤ spec.startupDeadlineMs / spec.intervalMs + 1
  each : ∀ t ∈ times, t ≤ start + spec.startupDeadlineMs
  length : times.length = attempts.length

namespace HealthLoop
variable {start : Nat} {l : HealthLoop σ} {times : List Nat}

theorem Timed.punctual (h : Timed w spec start l times) (waits : 0 < spec.intervalMs) (a : Attempt) :
    Punctual spec start (l.attempts ++ [a]) (times ++ [w.now l.world]) where
  few := by
    have apart := h.apart
    have early := h.early
    have few : times.length ≤ spec.startupDeadlineMs / spec.intervalMs :=
      (Nat.le_div_iff_mul_le waits).mpr (by omega)
    rw [List.length_append, List.length_singleton]
    omega
  each := fun t mem => by
    rcases List.mem_append.mp mem with mem | mem
    · exact h.each t mem
    · rw [List.mem_singleton.mp mem]
      exact h.early
  length := by rw [List.length_append, List.length_append, h.length]; rfl

/-- A step that goes on waits until later, and still before the deadline. -/
theorem Timed.step (h : Timed w spec start l times) (paced : w.Paced spec start) (waits : 0 < spec.intervalMs) :
    match healthStep w spec start l with
    | (l', none) => Timed w spec start l' (times ++ [w.now l.world]) ∧ w.now l.world + spec.intervalMs ≤ w.now l'.world
    | (l', some _) => Punctual spec start l'.attempts (times ++ [w.now l.world]) := by
  obtain ⟨a, s, attempt⟩ : ∃ a s, w.attempt (w.now l.world) l.world = (a, s) := ⟨_, _, rfl⟩
  have punctual := h.punctual waits a
  obtain ⟨-, eq⟩ | ⟨-, -, eq⟩ | ⟨-, -, -, eq⟩ | ⟨-, -, time, eq⟩ := healthStep_cases w spec start l attempt
  · rw [eq]; exact punctual
  · rw [eq]; exact punctual
  · rw [eq]; exact punctual
  · rw [eq]
    have forward := paced.forward l.world
    have fits := paced.fits l.world h.early
    have deadline := paced.deadline
    have apart := h.apart
    simp only [attempt] at forward fits
    rw [sumU64, Nat.mod_eq_of_lt fits] at time
    have moved := paced.waits s (by omega)
    refine ⟨⟨?_, ?_, punctual.each, punctual.length⟩, ?_⟩
    · show start + (times ++ [w.now l.world]).length * spec.intervalMs ≤ w.now (w.wait spec.intervalMs s)
      rw [moved, List.length_append, List.length_singleton, Nat.succ_mul]
      omega
    · show w.now (w.wait spec.intervalMs s) ≤ start + spec.startupDeadlineMs
      omega
    · show w.now l.world + spec.intervalMs ≤ w.now (w.wait spec.intervalMs s)
      omega

/-- A paced loop ends: each further attempt needs an interval before the deadline. -/
theorem Timed.loop (paced : w.Paced spec start) (waits : 0 < spec.intervalMs) : ∀ (fuel : Nat) {l : HealthLoop σ}
    {times : List Nat}, Timed w spec start l times →
    start + spec.startupDeadlineMs < w.now l.world + fuel * spec.intervalMs →
    ∃ l' verdict times', Punctual spec start l'.attempts times' ∧ ∀ more, fuel ≤ more →
      healthLoop w spec start more l = some (l', verdict) ∧
      healthLoop w.logged spec start more (l.log times) = some (l'.log times', verdict)
  | 0, l, times, h, enough => by
    have early := h.early
    omega
  | fuel + 1, l, times, h, enough => by
    have step := h.step paced waits
    have logged := @healthStep_logged _ w spec start l times
    rcases taken : healthStep w spec start l with ⟨next, ended | verdict⟩
    · rw [taken] at step logged
      have ⟨timed, later⟩ := step
      obtain ⟨l', verdict, times', punctual, ran⟩ :=
        Timed.loop paced waits fuel timed (by rw [Nat.succ_mul] at enough; omega)
      refine ⟨l', verdict, times', punctual, fun more le => ?_⟩
      obtain ⟨more, rfl⟩ : ∃ k, more = k + 1 := ⟨more - 1, by omega⟩
      have ⟨plain, log⟩ := ran more (by omega)
      unfold healthLoop
      rw [taken, logged]
      exact ⟨plain, log⟩
    · rw [taken] at step logged
      refine ⟨next, verdict, _, step, fun more le => ?_⟩
      obtain ⟨more, rfl⟩ : ∃ k, more = k + 1 := ⟨more - 1, by omega⟩
      unfold healthLoop
      rw [taken, logged]
      exact ⟨rfl, rfl⟩

end HealthLoop

/-- A check's verdict is what its evidence shows, and a paced check ends with attempts that all started in time. -/
theorem runHealth_agrees (w : HealthWorld σ) (spec : HealthSpec) (target : String) (s : σ) :
    (∀ fuel ev s', runHealth w spec target fuel s = some (ev, s') → ev.Outcome spec) ∧
    (w.Paced spec (w.now s) → 0 < spec.intervalMs → ∃ ev s' times, Punctual spec (w.now s) ev.attempts times ∧
      ∀ fuel, spec.startupDeadlineMs / spec.intervalMs < fuel →
        runHealth w spec target fuel s = some (ev, s') ∧
        runHealth w.logged spec target fuel (s, []) = some (ev, (s', times))) := by
  refine ⟨fun fuel ev s' ran => runHealth_outcome ran, fun paced waits => ?_⟩
  have timed : HealthLoop.Timed w spec (w.now s) (⟨[], 0, 0, s⟩ : HealthLoop σ) [] :=
    ⟨by rw [List.length_nil, Nat.zero_mul]; exact Nat.le_refl _, Nat.le_add_right ..,
      fun t mem => absurd mem List.not_mem_nil, rfl⟩
  have enough : spec.startupDeadlineMs < (spec.startupDeadlineMs / spec.intervalMs + 1) * spec.intervalMs := by
    rw [Nat.mul_comm]
    exact Nat.lt_mul_div_succ _ waits
  obtain ⟨l, verdict, times, punctual, ran⟩ := timed.loop paced waits _ (Nat.add_lt_add_left enough (w.now s))
  refine ⟨l.evidence spec target verdict (w.now l.world - w.now s), l.world, times, punctual, fun fuel more => ?_⟩
  have ⟨plain, log⟩ := ran fuel more
  exact ⟨congrArg (Option.map _) plain, congrArg (Option.map _) log⟩

end

section
/-- A container that refuses for a second, then answers; an attempt takes three milliseconds. -/
def slowStart : HealthWorld Nat where
  now s := s
  attempt time s := (⟨time, if s < 1000 then .connectFailed "connection refused" else .status 200, true⟩, s + 3)
  wait ms s := s + ms

theorem slowStart_paced : slowStart.Paced (.firstTest "/") 0 where
  forward := fun s => Nat.le_add_right s 3
  waits := fun _ _ => rfl
  fits := fun s early => by
    simp only [slowStart, HealthSpec.firstTest] at early ⊢
    omega
  deadline := by decide

theorem slowStart_checked : ∃ ev s' times, Punctual (.firstTest "/") 0 ev.attempts times ∧ ev.Outcome (.firstTest "/") ∧
    runHealth slowStart.logged (.firstTest "/") "t" 121 (0, []) = some (ev, (s', times)) :=
  have ⟨sound, ends⟩ := runHealth_agrees slowStart (.firstTest "/") "t" 0
  have ⟨ev, s', times, punctual, ran⟩ := ends slowStart_paced (by decide)
  have ⟨plain, logged⟩ := ran 121 (by decide)
  ⟨ev, s', times, punctual, sound 121 ev s' plain, logged⟩

/-- What keeps the loop from a verdict keeps it from one forever. -/
theorem runHealth_none {w : HealthWorld σ} {spec : HealthSpec} {start : Nat} (stays : HealthLoop σ → Prop)
    (step : ∀ l, stays l → ∃ next, healthStep w spec start l = (next, none) ∧ stays next) :
    ∀ (fuel : Nat) (l : HealthLoop σ), stays l → healthLoop w spec start fuel l = none
  | 0, _, _ => rfl
  | fuel + 1, l, h => by
    obtain ⟨next, eq, h⟩ := step l h
    unfold healthLoop
    rw [eq]
    exact runHealth_none stays step fuel next h

/-- Nothing answers, and an attempt moves the clock as told. -/
def refusing (moves : Nat → Nat) : HealthWorld Nat where
  now s := s
  attempt time s := (⟨time, .connectFailed "connection refused", true⟩, moves s)
  wait ms s := min (s + ms) 0xFFFFFFFFFFFFFFFF

theorem refusing_waits {moves : Nat → Nat} {spec : HealthSpec} {start : Nat} {l : HealthLoop Nat}
    (positive : 0 < spec.consecutiveOk.toNat)
    (time : sumU64 (moves l.world - start) spec.intervalMs ≤ spec.startupDeadlineMs) :
    healthStep (refusing moves) spec start l =
      (l.after spec ⟨l.world, .connectFailed "connection refused", true⟩
        (min (moves l.world + spec.intervalMs) 0xFFFFFFFFFFFFFFFF), none) := by
  obtain ⟨exited, -⟩ | ⟨-, reached, -⟩ | ⟨-, -, late, -⟩ | ⟨-, -, -, eq⟩ :=
    healthStep_cases (refusing moves) spec start l rfl
  · cases exited
  · exact absurd reached.2 (Nat.not_le.mpr positive)
  · exact absurd time (Nat.not_le.mpr late)
  · exact eq

/-- With no time between attempts, or a clock that an attempt sets back, there is no last one; and past 64 bits one starts
after the deadline. -/
theorem unpaced_overruns :
    (∀ fuel, runHealth (refusing id) ⟨"/", .success2xx, 0, 1, 1000⟩ "t" fuel 0 = none) ∧
    (∀ fuel, runHealth (refusing (· - 1)) ⟨"/", .success2xx, 1, 1, 1000⟩ "t" fuel 5 = none) ∧
    (runHealth (refusing (· + 1)).logged ⟨"/", .success2xx, 0xFFFFFFFFFFFFFFFF, 1, 1000⟩ "t" 2 (0, [])).map (·.2.2) =
      some [0, 0xFFFFFFFFFFFFFFFF] := by
  refine ⟨fun fuel => ?_, fun fuel => ?_, by decide⟩
  · refine congrArg (Option.map _) (runHealth_none (fun l => l.world = 0) (fun l still => ?_) fuel _ rfl)
    refine ⟨_, refusing_waits (by decide) (by rw [still]; decide), ?_⟩
    show min (id l.world + 0) 0xFFFFFFFFFFFFFFFF = 0
    rw [still]
    decide
  · refine congrArg (Option.map _) (runHealth_none (fun l => l.world = 5) (fun l still => ?_) fuel _ rfl)
    refine ⟨_, refusing_waits (by decide) (by rw [still]; decide), ?_⟩
    show min (l.world - 1 + 1) 0xFFFFFFFFFFFFFFFF = 5
    rw [still]
    decide
end

end Harpoon.Deploy
