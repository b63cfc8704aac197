import Harpoon.Docker.Probe
import Harpoon.Laws.RunHealth
import Harpoon.Laws.Rehearsal

/-!
# Whose answer it was

What a passed check says about the container. Every 2xx answer that counted carried the container's own marker, or carried
none and was accepted while the container was the one that it was when its identity was first known, with the path to it
proven; the identity, the image, the mapping and the path are then confirmed once more after the last attempt. Neither an
answer outside 2xx nor the mapping before the first attempt is always judged so.
-/

namespace Harpoon.Docker

open Interact Deploy Deploy.Ports Process

/-! ## The attempts -/

/-- The attempt learned the container's whole identity. -/
def Probed.Knows (p : Probed) (b : ContainerBaseline) : Prop :=
  ∃ c, p.found = .ok (some c) ∧ ContainerBaseline.of c.toContainerInfo = some b

/-- Once an identity was known, a later attempt that finds the container running finds that one. -/
def Probed.Same (earlier later : Probed) : Prop :=
  ∀ b c, earlier.Knows b → later.found = .ok (some c) → c.running = true → later.Knows b

/-- An answer without the marker, accepted behind the gate, after these attempts. -/
structure Probed.Gated (marker : ResponseMarker) (before : List Probed) (p : Probed) : Prop where
  unmarked : ∃ r name value, marker = .header name value ∧ p.answer = some (.ok r) ∧ r.values name = []
  known : ∃ b, p.Knows b
  same : (before ++ [p]).Pairwise Probed.Same
  proven : ∃ q ∈ before ++ [p], q.proof = some (.ok ())

/-- A 2xx answer that was observed is the container's own. -/
def Probed.Attributed (marker : ResponseMarker) (used : Bool) (before : List Probed) (p : Probed) : Prop :=
  ∀ status, p.attempt.observation = .status status → 200 ≤ status → status < 300 →
    (∃ r, p.answer = some (.ok r) ∧ r.carries marker = true) ∨ p.Gated marker before ∧ used = true

section

variable {ω : Type} {o : Outside ω} {check : Check} {containerPort : UInt16} {cells : Cells} {s : ω}
  {marker : ResponseMarker}

/-! ## One exchange -/

theorem carries_of_expecting {answer : Except String Response} {status : Nat}
    (counts : expecting (some marker) answer = .status status) : ∃ r, answer = .ok r ∧ r.carries marker = true := by
  unfold expecting at counts
  split at counts
  · cases counts
  · contradiction
  next m r same =>
    cases same
    split at counts
    next carried => exact ⟨r, rfl, carried⟩
    next => cases counts

theorem carries_of_matched {answer : Except String Response} {status : Nat}
    (matched : markedResponse marker answer = .matched status) : ∃ r, answer = .ok r ∧ r.carries marker = true := by
  unfold markedResponse at matched
  split at matched
  next name value r =>
    dsimp only at matched
    split at matched
    · cases matched
    next some =>
      split at matched
      next all =>
        rw [Bool.and_eq_true] at all
        refine ⟨r, rfl, Bool.and_eq_true_iff.mpr ⟨all.1, ?_⟩⟩
        obtain ⟨v, vs, values⟩ := List.exists_cons_of_ne_nil fun none => some (List.isEmpty_iff.mpr none)
        have first := List.all_eq_true.mp all.2 v (values ▸ List.mem_cons_self)
        rw [values, List.contains_cons, of_decide_eq_true first]
        simp
      · cases matched
  · cases matched
  next text answer =>
    split at matched
    next status counts =>
      exact carries_of_expecting counts
    · cases matched

theorem none_of_unmarked {answer : Except String Response} {status : Nat}
    (unmarked : markedResponse marker answer = .unmarked status) :
    ∃ r name value, marker = .header name value ∧ answer = .ok r ∧ r.values name = [] ∧ r.status = status := by
  unfold markedResponse at unmarked
  split at unmarked
  next name value r =>
    dsimp only at unmarked
    split at unmarked
    next none =>
      cases unmarked
      exact ⟨r, name, value, rfl, rfl, List.isEmpty_iff.mp none, rfl⟩
    next => split at unmarked <;> cases unmarked
  · cases unmarked
  · split at unmarked <;> cases unmarked

/-- What an exchange with the container may come to. -/
structure Exchange.Fair (check : Check) (cells : Cells) (e : Exchange ω) : Prop where
  baseline : e.cells.baseline = cells.baseline
  changed : e.cells.changed = cells.changed
  proven : e.cells.proven = true → cells.proven = true ∨ e.proof = some (.ok ())
  used : cells.usedUnmarked = true → e.cells.usedUnmarked = true
  gated : e.cells.usedUnmarked = true → cells.usedUnmarked = true ∨ check.gated = true ∧ cells.baseline.isSome = true
  answered : ∀ m, check.marker = some m → ∀ status, e.observation = .status status → 200 ≤ status → status < 300 →
    (∃ r, e.answer = some (.ok r) ∧ r.carries m = true) ∨
    (∃ r name value, m = .header name value ∧ e.answer = some (.ok r) ∧ r.values name = []) ∧ check.gated = true ∧
      cells.baseline.isSome = true ∧ e.cells.usedUnmarked = true ∧ (cells.proven = true ∨ e.proof = some (.ok ()))

theorem acceptUnmarked_fair {r : Response} {name value : String} (header : check.marker = some (.header name value))
    (none : r.values name = []) (gated : check.gated = true) (status : Nat) :
    (acceptUnmarked o check containerPort status (.ok r) cells s).Fair check cells := by
  have unmarked : ∀ m, check.marker = some m →
      ∃ r' name value, m = .header name value ∧ some (Except.ok r) = some (Except.ok (ε := String) r') ∧ r'.values name = [] :=
    fun m eq => ⟨r, name, value, Option.some.inj (eq.symm.trans header), rfl, none⟩
  unfold acceptUnmarked
  split
  next unknown =>
    exact ⟨rfl, rfl, .inl, id, .inl, fun m _ status observed => by cases observed⟩
  next known =>
    have known : cells.baseline.isSome = true := by
      cases some : cells.baseline with
      | none => exact absurd (by rw [some]; rfl) known
      | some b => rfl
    split
    next proven =>
      exact ⟨rfl, rfl, .inl, fun _ => rfl, fun _ => .inr ⟨gated, known⟩,
        fun m eq _ _ _ _ => .inr ⟨unmarked m eq, gated, known, rfl, .inl proven⟩⟩
    next =>
      split
      next proved =>
        exact ⟨rfl, rfl, fun _ => .inr rfl, fun _ => rfl, fun _ => .inr ⟨gated, known⟩,
          fun m eq _ _ _ _ => .inr ⟨unmarked m eq, gated, known, rfl, .inr rfl⟩⟩
      next => exact ⟨rfl, rfl, .inl, id, .inl, fun m _ status observed => by cases observed⟩

/-- A response that failed is no answer. -/
theorem no_status_of_failed {answer : Except String Response} {seen : Observation}
    (failed : markedResponse marker answer = .failed seen) (status : Nat) : seen ≠ .status status := by
  rintro rfl
  unfold markedResponse at failed
  split at failed
  next =>
    dsimp only at failed
    split at failed
    · cases failed
    · split at failed <;> cases failed
  · cases failed
  next =>
    split at failed
    · cases failed
    next differs => exact differs status (MarkedResponse.failed.inj failed)

/-- Nothing was remembered of an exchange. -/
theorem Exchange.Fair.plain {seen : Observation} {answer : Option (Except String Response)}
    (answered : ∀ m, check.marker = some m → ∀ status, seen = .status status → 200 ≤ status → status < 300 →
      ∃ r, answer = some (.ok r) ∧ r.carries m = true) :
    (⟨seen, answer, none, cells, s⟩ : Exchange ω).Fair check cells where
  baseline := rfl
  changed := rfl
  proven := .inl
  used := id
  gated := .inl
  answered := fun m eq status observed low high => .inl (answered m eq status observed low high)

theorem observe_fair (o : Outside ω) (check : Check) (containerPort : UInt16) (cells : Cells) (s : ω) :
    (observe o check containerPort cells s).Fair check cells := by
  unfold observe
  split
  next m header gate =>
    generalize o.fetch true m.needsBody s = fetched
    obtain ⟨answer, s'⟩ := fetched
    dsimp only
    split
    next status matched =>
      refine .plain fun m' eq _ _ _ _ => ?_
      obtain ⟨r, answered, carried⟩ := carries_of_matched matched
      rw [answered, Option.some.inj (eq.symm.trans header)]
      exact ⟨r, rfl, carried⟩
    next status unmarked =>
      obtain ⟨r, name, value, marked, answered, none, -⟩ := none_of_unmarked unmarked
      rw [marked] at header
      split
      next =>
        rw [answered]
        exact acceptUnmarked_fair header none gate status
      next other =>
        refine .plain fun m' eq status' observed low high => ?_
        cases observed
        simp [low, high] at other
    next seen failed =>
      exact .plain fun m' eq status observed _ _ => absurd observed (no_status_of_failed failed status)
  next =>
    generalize o.fetch check.marker.isSome (check.marker.any (·.needsBody)) s = fetched
    obtain ⟨answer, s'⟩ := fetched
    refine .plain fun m eq status observed _ _ => ?_
    rw [eq] at observed
    obtain ⟨r, answered, carried⟩ := carries_of_expecting observed
    exact ⟨r, congrArg some answered, carried⟩

/-! ## The identity -/

theorem of_known {c : ContainerInfo} {b : ContainerBaseline} (known : ContainerBaseline.of c = some b) :
    c.running = true ∧ b = ⟨c.id, c.imageId, c.startedAt, c.restartCount⟩ := by
  unfold ContainerBaseline.of at known
  split at known
  next all =>
    simp only [Bool.and_eq_true] at all
    exact ⟨all.1.1.1, (Option.some.inj known).symm⟩
  next => cases known

/-- A running container that does not differ is the one whose identity was known. -/
theorem of_same {c c' : ContainerInfo} {b : ContainerBaseline} (known : ContainerBaseline.of c = some b)
    (running : c'.running = true) (same : b.differs c' = none) : ContainerBaseline.of c' = some b := by
  obtain ⟨-, rfl⟩ := of_known known
  unfold ContainerBaseline.differs at same
  split at same
  · cases same
  next id =>
    split at same
    · cases same
    next image =>
      split at same
      · cases same
      next started =>
        simp only [ne_eq, Decidable.not_not, not_or] at id image started
        unfold ContainerBaseline.of at known ⊢
        rw [running, id, image, started.1, started.2]
        split at known
        next all =>
          simp only [Bool.and_eq_true] at all
          simp [all.1.1.2, all.1.2, all.2]
        next => cases known

/-! ## The loop -/

/-- What is remembered, after these attempts of a check whose container did not change. -/
structure Remembered (check : Check) (marker : ResponseMarker) (cells : Cells) (log : List Probed) : Prop where
  same : check.gated = true → log.Pairwise Probed.Same
  first : check.gated = true → ∀ q ∈ log, ∀ b, q.Knows b → cells.baseline = some b
  known : ∀ b, cells.baseline = some b → ∃ q ∈ log, q.Knows b
  proven : cells.proven = true → ∃ q ∈ log, q.proof = some (.ok ())
  used : cells.usedUnmarked = true → check.gated = true ∧ cells.baseline.isSome = true
  each : ∀ before p, before ++ [p] <+: log → p.Attributed marker cells.usedUnmarked before

theorem remembered_new (check : Check) (marker : ResponseMarker) : Remembered check marker .new [] where
  same := fun _ => .nil
  first := fun _ q mem => absurd mem List.not_mem_nil
  known := fun b eq => by cases eq
  proven := fun yes => by cases yes
  used := fun yes => by cases yes
  each := fun before p sub => absurd (List.prefix_nil.mp sub) (by simp)

theorem Probed.Attributed.mono {p : Probed} {before : List Probed} {used used' : Bool}
    (attributed : p.Attributed marker used before) (more : used = true → used' = true) :
    p.Attributed marker used' before :=
  fun status observed low high => (attributed status observed low high).imp_right fun ⟨gated, was⟩ => ⟨gated, more was⟩

variable {log : List Probed} {p : Probed} {c : Inspected}

/-- An attempt that found no container running, or another, shows nothing. -/
theorem Remembered.silent (h : Remembered check marker cells log)
    (stopped : ∀ c, p.found = .ok (some c) → c.running = false)
    (silent : ∀ status, p.attempt.observation ≠ .status status) : Remembered check marker cells (log ++ [p]) := by
  have unknown : ∀ b, ¬ p.Knows b := by
    rintro b ⟨c, found, known⟩
    have running := (of_known known).1
    rw [stopped c found] at running
    cases running
  refine ⟨fun gated => ?_, fun gated q mem b known => ?_, fun b eq => ?_, fun yes => ?_, h.used, fun before q sub => ?_⟩
  · refine List.pairwise_append.mpr ⟨h.same gated, List.pairwise_singleton _ _, fun q _ p' mem b c _ found running => ?_⟩
    rw [List.mem_singleton.mp mem] at found
    rw [stopped c found] at running
    cases running
  · rcases List.mem_append.mp mem with mem | mem
    · exact h.first gated q mem b known
    · exact absurd (List.mem_singleton.mp mem ▸ known) (unknown b)
  · obtain ⟨q, mem, known⟩ := h.known b eq
    exact ⟨q, List.mem_append_left _ mem, known⟩
  · obtain ⟨q, mem, proof⟩ := h.proven yes
    exact ⟨q, List.mem_append_left _ mem, proof⟩
  · rcases List.prefix_concat_iff.mp sub with last | sub
    · obtain ⟨-, rfl⟩ := List.append_inj' last rfl |>.imp_right List.singleton_inj.mp
      exact fun status observed => absurd observed (silent status)
    · exact h.each before q sub

/-- Behind the gate, the identity that is remembered is the running container's. -/
theorem Remembered.meets (h : Remembered check marker cells log) (gated : check.gated = true) (running : c.running = true)
    {met : Cells} (meets : cells.meet check c = .ok met) :
    met = { cells with baseline := ContainerBaseline.of c.toContainerInfo } ∧
      ∀ b, cells.baseline = some b → ContainerBaseline.of c.toContainerInfo = some b := by
  unfold Cells.meet at meets
  rw [if_pos gated] at meets
  split at meets
  next b known =>
    split at meets
    next => cases meets
    next same =>
      obtain ⟨q, -, c', -, of⟩ := h.known b known
      have now := of_same of running same
      cases meets
      refine ⟨?_, fun b' eq => ?_⟩
      · rw [now, ← known]
      · rw [now, ← known, eq]
  next unknown =>
    cases meets
    exact ⟨rfl, fun b eq => by rw [unknown] at eq; cases eq⟩

/-- An attempt on a running container that did not change. -/
theorem Remembered.answered (h : Remembered check marker cells log) (of : check.marker = some marker)
    (running : c.running = true) {met : Cells} (meets : cells.meet check c = .ok met) {e : Exchange ω}
    (fair : e.Fair check met) (atMs : Nat) :
    Remembered check marker e.cells
      (log ++ [⟨.ok (some c), e.answer, e.proof, ⟨atMs, e.observation, true⟩⟩]) := by
  generalize made : (⟨.ok (some c), e.answer, e.proof, ⟨atMs, e.observation, true⟩⟩ : Probed) = p
  have found : p.found = .ok (some c) := by rw [← made]
  have knows : ∀ b, p.Knows b ↔ ContainerBaseline.of c.toContainerInfo = some b := by
    intro b
    refine ⟨?_, fun known => ⟨c, found, known⟩⟩
    rintro ⟨c', found', known⟩
    rw [found] at found'
    cases found'
    exact known
  have answer : p.answer = e.answer ∧ p.proof = e.proof ∧ p.attempt.observation = e.observation := by
    rw [← made]
    exact ⟨rfl, rfl, rfl⟩
  have baseline : check.gated = true → e.cells.baseline = ContainerBaseline.of c.toContainerInfo ∧
      ∀ b, cells.baseline = some b → ContainerBaseline.of c.toContainerInfo = some b := by
    intro gated
    obtain ⟨rfl, before⟩ := h.meets gated running meets
    exact ⟨fair.baseline, before⟩
  have kept : met.proven = cells.proven ∧ met.usedUnmarked = cells.usedUnmarked := by
    by_cases gated : check.gated = true
    · obtain ⟨rfl, -⟩ := h.meets gated running meets
      exact ⟨rfl, rfl⟩
    · rw [Cells.meet, if_neg gated] at meets
      cases meets
      exact ⟨rfl, rfl⟩
  have same : check.gated = true → (log ++ [p]).Pairwise Probed.Same := by
    intro gated
    refine List.pairwise_append.mpr ⟨h.same gated, List.pairwise_singleton _ _, fun q mem p' last b _ known _ _ => ?_⟩
    rw [List.mem_singleton.mp last]
    exact (knows b).mpr ((baseline gated).2 b (h.first gated q mem b known))
  have proven : met.proven = true ∨ e.proof = some (.ok ()) → ∃ q ∈ log ++ [p], q.proof = some (.ok ()) := by
    rintro (was | now)
    · obtain ⟨q, mem, proof⟩ := h.proven (kept.1 ▸ was)
      exact ⟨q, List.mem_append_left _ mem, proof⟩
    · exact ⟨p, List.mem_append_right _ List.mem_cons_self, answer.2.1.trans now⟩
  refine ⟨same, fun gated q mem b known => ?_, fun b eq => ?_, fun yes => proven (fair.proven yes), fun yes => ?_,
    fun before q sub => ?_⟩
  · rw [(baseline gated).1]
    rcases List.mem_append.mp mem with mem | mem
    · exact (baseline gated).2 b (h.first gated q mem b known)
    · exact (knows b).mp (List.mem_singleton.mp mem ▸ known)
  · by_cases gated : check.gated = true
    · rw [(baseline gated).1] at eq
      exact ⟨p, List.mem_append_right _ List.mem_cons_self, (knows b).mpr eq⟩
    · rw [Cells.meet, if_neg gated] at meets
      cases meets
      rw [fair.baseline] at eq
      obtain ⟨q, mem, known⟩ := h.known b eq
      exact ⟨q, List.mem_append_left _ mem, known⟩
  · rcases fair.gated yes with was | ⟨gated, some⟩
    · obtain ⟨gated, some⟩ := h.used (kept.2 ▸ was)
      obtain ⟨b, eq⟩ := Option.isSome_iff_exists.mp some
      refine ⟨gated, ?_⟩
      rw [(baseline gated).1, (baseline gated).2 b eq]
      rfl
    · exact ⟨gated, fair.baseline ▸ some⟩
  · rcases List.prefix_concat_iff.mp sub with last | sub
    · obtain ⟨rfl, rfl⟩ := List.append_inj' last rfl |>.imp_right List.singleton_inj.mp
      intro status observed low high
      rw [answer.2.2] at observed
      rcases fair.answered marker of status observed low high with ⟨r, eq, carried⟩ | ⟨unmarked, gated, some, used, path⟩
      · exact .inl ⟨r, answer.1.trans eq, carried⟩
      · obtain ⟨r, name, value, header, eq, none⟩ := unmarked
        obtain ⟨b, eq'⟩ := Option.isSome_iff_exists.mp some
        refine .inr ⟨⟨⟨r, name, value, header, answer.1.trans eq, none⟩, ⟨b, (knows b).mpr ?_⟩, same gated, proven path⟩, used⟩
        rw [← (baseline gated).1, fair.baseline, eq']
    · exact (h.each before q sub).mono fun was => fair.used (kept.2 ▸ was)

/-- One attempt, if the container did not change. -/
theorem Remembered.probe (h : Remembered check marker cells log) (of : check.marker = some marker) (o : Outside ω)
    (containerPort : UInt16) (atMs : Nat) (s : ω)
    (same : (probe o check containerPort atMs cells s).2.1.changed = none) :
    Remembered check marker (probe o check containerPort atMs cells s).2.1
      (log ++ [(probe o check containerPort atMs cells s).1]) := by
  unfold Docker.probe at same ⊢
  generalize o.inspect s = inspected at same ⊢
  obtain ⟨found, s'⟩ := inspected
  cases found with
  | error e =>
    exact h.silent (fun c found => by cases found) fun status observed => by cases observed
  | ok found =>
    cases found with
    | none => exact h.silent (fun c found => by cases found) fun status observed => by cases observed
    | some c =>
      dsimp only at same ⊢
      cases running : c.running with
      | false =>
        rw [if_neg (by simp)]
        exact h.silent (fun c' found => by cases found; exact running) fun status observed => by cases observed
      | true =>
        rw [if_pos rfl]
        rw [running, if_pos rfl] at same
        cases meets : cells.meet check c with
        | error why =>
          rw [meets] at same
          cases same
        | ok met => exact h.answered of running meets (observe_fair o check containerPort met s') atMs

theorem meets_changed {met : Cells} (meets : cells.meet check c = .ok met) : met.changed = cells.changed := by
  unfold Cells.meet at meets
  split at meets
  · split at meets
    · split at meets <;> cases meets
      rfl
    · cases meets
      rfl
  · cases meets
    rfl

/-- That the container changed is not forgotten. -/
theorem probe_changed (o : Outside ω) (containerPort : UInt16) (atMs : Nat) (s : ω)
    (same : (probe o check containerPort atMs cells s).2.1.changed = none) : cells.changed = none := by
  unfold Docker.probe at same
  generalize o.inspect s = inspected at same
  obtain ⟨found, s'⟩ := inspected
  cases found with
  | error e => exact same
  | ok found =>
    cases found with
    | none => exact same
    | some c =>
      dsimp only at same
      split at same
      · cases meets : cells.meet check c with
        | error why =>
          rw [meets] at same
          cases same
        | ok met =>
          rw [meets] at same
          rw [← meets_changed meets, ← (observe_fair o check containerPort met s').changed]
          exact same
      · exact same

/-- What the loop of probes remembers, if the container did not change. -/
theorem watch_remembers {o : Outside ω} {containerPort : UInt16} (of : check.marker = some marker) {fuel : Nat} {s : ω}
    {w : Watched} (watched : watch o check containerPort fuel s = some (w, log)) (same : w.changed = none) :
    ∃ cells, Remembered check marker cells log ∧ w.attempts = log.map (·.attempt) ∧
      w.usedUnmarked = cells.usedUnmarked ∧ w.baseline = cells.baseline := by
  obtain ⟨⟨ev, s'⟩, ran, eq⟩ := Option.map_eq_some_iff.mp watched
  cases eq
  have kept : ev.attempts = s'.log.map (·.attempt) ∧
      (s'.cells.changed = none → Remembered check marker s'.cells s'.log) := by
    refine runHealth_keeps (w := probing o check containerPort) (I := fun attempts s =>
      attempts = s.log.map (·.attempt) ∧ (s.cells.changed = none → Remembered check marker s.cells s.log))
      (fun attempts s h => ⟨?_, fun same => ?_⟩) (fun attempts s h => h) ⟨rfl, fun _ => remembered_new check marker⟩ ran
    · show _ = (s.log ++ [_]).map _
      rw [List.map_append, ← h.1]
      rfl
    · exact (h.2 (probe_changed o containerPort _ _ same)).probe of o containerPort _ _ same
  exact ⟨s'.cells, kept.2 same, kept.1, rfl, rfl⟩

end

/-! ## Around the loop -/

section

variable {self : DockerBackend} {st : State} {io : StepIo} {t later : Past} {b : Budget} {check : Check}
  {id name what : String} {containerPort port : UInt16} {w : Watched} {ev : CheckEvidence} {last : ContainerInfo}

/-- What was confirmed after the last attempt. -/
structure Confirmed (st : State) (check : Check) (name : String) (containerPort : UInt16) (w : Watched) (later : Past)
    (last : ContainerInfo) : Prop where
  inspected : Answered later (.containerInspect check.containerId) (some last)
  running : last.running = true
  mapped : verifyMapping last containerPort check.port = none
  image : w.usedUnmarked = true → ∃ base, w.baseline = some base ∧ base.differs last = none ∧
    st.createdImages.lookup name = some base.imageId
  path : w.usedUnmarked = true → check.gated = true →
    ⟨.host (.provePath check.containerId containerPort check.port), .ok ()⟩ ∈ later

theorem any_reads : LetsRead fun _ _ => True := ⟨fun _ => trivial, fun _ _ _ => trivial⟩

theorem unmarkedProblem_none (nothing : unmarkedProblem st name w last = none) :
    ∃ base, w.baseline = some base ∧ base.differs last = none ∧ st.createdImages.lookup name = some base.imageId := by
  unfold unmarkedProblem at nothing
  split at nothing
  next => cases nothing
  next base known =>
    cases same : base.differs last with
    | some why =>
      rw [same] at nothing
      cases nothing
    | none =>
      rw [same, Option.orElse_none] at nothing
      split at nothing
      next created => exact ⟨base, known, same, created⟩
      next => cases nothing

theorem mappingAfter_none {found : Option ContainerInfo}
    (nothing : mappingAfter st name containerPort port w found = none) :
    ∃ last, found = some last ∧ last.running = true ∧ verifyMapping last containerPort port = none ∧
      (w.usedUnmarked = true → ∃ base, w.baseline = some base ∧ base.differs last = none ∧
        st.createdImages.lookup name = some base.imageId) := by
  unfold mappingAfter at nothing
  split at nothing
  next => cases nothing
  next last =>
    split at nothing
    next running =>
      cases mapped : verifyMapping last containerPort port with
      | some why =>
        rw [mapped] at nothing
        cases nothing
      | none =>
        rw [mapped, Option.orElse_none] at nothing
        refine ⟨last, rfl, running, mapped, fun used => ?_⟩
        rw [if_pos used] at nothing
        exact unmarkedProblem_none nothing
    next => cases nothing

theorem orAsk_serves {rule : Past → StepOp → Prop} {found : Option String} {next : Docker (Option String)}
    {post : Option String → State → StepIo → Past → Prop} {fail : StepError → State → StepIo → Past → Prop}
    (some_ : ∀ m, found = some m → post (some m) st io t) (none_ : found = none → Serves rule next post fail st io t) :
    Serves rule (orAsk found next) post fail st io t := by
  cases found with
  | some m => exact some_ m rfl
  | none => exact none_ rfl

/-- The path is proven again for an answer without the marker. -/
theorem proveAgain_serves :
    Serves (fun _ _ => True) (proveAgain check containerPort w)
      (fun problem st' _ t' => st' = st ∧ (problem = none → ∃ k, t' = k ++ t ∧ (w.usedUnmarked = true → check.gated = true →
        ⟨.host (.provePath check.containerId containerPort check.port), .ok ()⟩ ∈ k)))
      (fun _ _ _ _ => True) st io t := by
  unfold proveAgain
  split
  next asked =>
    refine serves_bind.mpr (serves_host.mpr ⟨trivial, fun answer => ?_⟩)
    cases answer with
    | ok _ => exact ⟨rfl, fun _ => ⟨[_], rfl, fun _ _ => List.mem_cons_self⟩⟩
    | error e => exact ⟨rfl, fun none => by cases none⟩
  next unasked =>
    refine ⟨rfl, fun _ => ⟨[], rfl, fun used gated => ?_⟩⟩
    rw [used, gated] at unasked
    exact absurd rfl unasked

/-- Giving up, with the logs attached. -/
theorem attachLogs_throws {α : Type} {post : α → State → StepIo → Past → Prop} {e : StepError} :
    Serves (fun _ _ => True) (do attachLogs self b id; throw e) post (fun _ _ _ _ => True) st io t :=
  serves_bind.mpr (attachLogs_reads.serves any_reads (fun _ _ _ _ _ _ => trivial) fun _ _ _ _ _ => trivial)

/-- Only what is confirmed is trusted. -/
theorem trustHealthy_confirms :
    Serves (fun _ _ => True) (trustHealthy self b check name containerPort what w ev)
      (fun ev' _ _ t' => ev' = trusted self w ev ∧
        ∃ later last, t' = later ++ t ∧ Confirmed st check name containerPort w later last)
      (fun _ _ _ _ => True) st io t := by
  refine serves_bind.mpr (call_obeys any_reads (fun _ _ _ _ _ => trivial) (fun found io₁ t₁ left grows₁ _ => ?_)
    (fun _ _ _ _ _ => trivial) fun _ _ _ _ _ _ => trivial)
  obtain ⟨k₁, rfl, -⟩ := grows₁
  refine serves_bind.mpr (serves_get.mpr (serves_bind.mpr (orAsk_serves (fun m _ => ?_) fun nothing => ?_)))
  · exact serves_bind.mpr (orAsk_serves (fun m _ => attachLogs_throws) fun none => by cases none)
  obtain ⟨last, rfl, running, mapped, image⟩ := mappingAfter_none nothing
  refine proveAgain_serves.mono ?_ fun _ _ _ _ h => h
  rintro problem _ io₂ t₂ ⟨rfl, proven⟩
  refine serves_bind.mpr (orAsk_serves (fun m _ => attachLogs_throws) fun none => ?_)
  obtain ⟨k₂, rfl, path⟩ := proven none
  refine forwarderProblem_reads.serves any_reads (fun problem io₃ t₃ _ grows₃ _ => ?_) fun _ _ _ _ _ => trivial
  obtain ⟨k₃, rfl, -⟩ := grows₃
  cases problem with
  | some m => exact attachLogs_throws
  | none =>
    let e : Event StepSig := ⟨.host (.api (.containerInspect check.containerId) left), .ok (some last)⟩
    have after : k₃ ++ (k₂ ++ e :: (k₁ ++ t)) = k₃ ++ (k₂ ++ e :: k₁) ++ t := by
      rw [List.append_assoc, List.append_assoc]
      rfl
    refine ⟨rfl, _, last, after, ?_⟩
    exact {
      inspected := ⟨left, List.mem_append_right _ (List.mem_append_right _ List.mem_cons_self)⟩
      running
      mapped
      image
      path := fun used gated => List.mem_append_right _ (List.mem_append_left _ (path used gated)) }

/-- A check is concluded well on healthy evidence of a container that did not change, and only when confirmed. -/
theorem concludeHealth_confirms :
    Serves (fun _ _ => True) (concludeHealth self b check name containerPort what w)
      (fun ev _ _ t' => ev = trusted self w (evidenceOf check self.simulated w) ∧ w.changed = none ∧
        (evidenceOf check self.simulated w).isHealthy = true ∧
        ∃ later last, t' = later ++ t ∧ Confirmed st check name containerPort w later last)
      (fun _ _ _ _ => True) st io t := by
  unfold concludeHealth
  dsimp only
  cases w.changed with
  | some why => exact attachLogs_throws
  | none =>
    dsimp only
    split
    next healthy => exact trustHealthy_confirms.mono (fun _ _ _ _ h => ⟨h.1, rfl, healthy, h.2⟩) fun _ _ _ _ h => h
    next => exact attachLogs_throws

/-- A passed check: the loop ran once, between an inspection before it and one after it. -/
structure Passing (backend : DockerBackend) (b : Budget) (st : State) (id name : String) (port : UInt16) (t : Past)
    (ev : CheckEvidence) (check : Check) (w : Watched) (later : Past) (last : ContainerInfo) : Prop where
  asked : check.containerId = id ∧ check.port = port ∧ check.gated = backend.pathProof ∧
    check.spec = checkedSpec b (healthOf backend st).1 ∧
    check.target = s!"http://127.0.0.1:{port}{(checkedSpec b (healthOf backend st).1).path}"
  /-- The marker that counts is the one that the container was created with. -/
  own : ∃ value, st.markers.lookup name = some value ∧
    check.marker = some (.header markerHeader (String.ofList (Dockerfile.trimChars value.toList)))
  around : ∃ before first, t = later ++ ⟨.host (.runHealth check), w⟩ :: before ∧
    Answered before (.containerInspect id) first ∧
    ∀ info, first = some info → info.running = true → verifyMapping info (healthOf backend st).2 port = none
  confirmed : Confirmed st check name (healthOf backend st).2 w later last
  same : w.changed = none
  healthy : ev.attempts = w.attempts ∧ ev.isHealthy = true

theorem markerFor_perContainer {marker : Option ResponseMarker} (perContainer : backend.cfg.attribution = .perContainer)
    (found : markerFor backend st name = .ok marker) :
    ∃ value, st.markers.lookup name = some value ∧
      marker = some (.header markerHeader (String.ofList (Dockerfile.trimChars value.toList))) := by
  unfold markerFor at found
  rw [perContainer] at found
  dsimp only at found
  split at found
  · cases found
  next value known =>
    split at found
    · cases found
    · cases found
      exact ⟨value, known, rfl⟩

/-- The label says more, the attempts and their verdict stay. -/
theorem trusted_kept : (trusted self w ev).attempts = ev.attempts ∧ (trusted self w ev).isHealthy = ev.isHealthy := by
  unfold trusted
  split <;> exact ⟨rfl, rfl⟩

theorem mappingBefore_ok {info : ContainerInfo} {u : Unit} (mapped : mappingBefore what containerPort port (some info) = .ok u)
    (running : info.running = true) : verifyMapping info containerPort port = none := by
  dsimp only [mappingBefore] at mapped
  rw [if_pos running] at mapped
  split at mapped
  next => cases mapped
  next none => exact none

theorem health_confirms (perContainer : self.cfg.attribution = .perContainer) :
    Serves (fun _ _ => True) (health self b id name port what)
      (fun ev _ _ t' => ∃ check w later last, Passing self b st id name port t' ev check w later last)
      (fun _ _ _ _ => True) st io t := by
  refine serves_bind.mpr (serves_get.mpr ?_)
  generalize spec : healthOf self st = base
  obtain ⟨base, containerPort⟩ := base
  refine serves_bind.mpr (serves_ofExcept (fun marker own => ?_) fun _ _ => trivial)
  refine serves_bind.mpr (require_reads.serves any_reads (fun _ io₁ t₁ _ _ _ => ?_) fun _ _ _ _ _ => trivial)
  refine serves_bind.mpr (call_obeys any_reads (fun _ _ _ _ _ => trivial) (fun first io₂ t₂ left _ _ => ?_)
    (fun _ _ _ _ _ => trivial) fun _ _ _ _ _ _ => trivial)
  refine serves_bind.mpr (serves_ofExcept (fun _ mapped => ?_) fun _ _ => trivial)
  refine serves_bind.mpr (serves_host.mpr ⟨trivial, fun w => ?_⟩)
  refine concludeHealth_confirms.mono ?_ fun _ _ _ _ h => h
  rintro ev _ io₃ t₃ ⟨rfl, same, healthy, later, last, rfl, confirmed⟩
  refine ⟨_, w, later, last, ⟨rfl, rfl, by simp [perContainer], by rw [spec], by rw [spec]⟩, markerFor_perContainer perContainer own,
    ⟨_, first, rfl, ⟨left, List.mem_cons_self⟩, ?_⟩, ?_, same, trusted_kept.1, trusted_kept.2.trans healthy⟩
  · rintro info rfl running
    rw [spec]
    exact mappingBefore_ok mapped running
  · rw [spec]
    exact confirmed

/-- A health pass is attributed: of its attempts every answer in 2xx was the container's own, by its marker or, without one,
behind the gate; and what such an answer without the marker stands on was confirmed once more after the last attempt. -/
theorem health_attributed {h : History StepSig} {ev : CheckEvidence} {st' : State} {io' : StepIo}
    (perContainer : self.cfg.attribution = .perContainer)
    (passed : Program.Follows (serving (health self b id name port what) st io) h (.done (.ok (.ok ev, st'), io'))) :
    ∃ check w later last, Passing self b st id name port h.reverse ev check w later last ∧
      ∀ (ω : Type) (o : Outside ω) fuel s log, watch o check (healthOf self st).2 fuel s = some (w, log) →
        ev.attempts = log.map (·.attempt) ∧
        (∃ marker, check.marker = some marker ∧
          ∀ before p, before ++ [p] <+: log → p.Attributed marker w.usedUnmarked before) ∧
        (w.usedUnmarked = true → ∃ base, (∃ q ∈ log, q.Knows base) ∧ log.Pairwise Probed.Same ∧
          ContainerBaseline.of last = some base ∧ st.createdImages.lookup name = some base.imageId ∧
          ⟨.host (.provePath id (healthOf self st).2 port), .ok ()⟩ ∈ later) := by
  have ⟨ended, _⟩ := Program.Obeys.follows (health_confirms (t := []) perContainer) passed
  rw [seen_eq, List.append_nil] at ended
  obtain ⟨check, w, later, last, passing⟩ := ended
  refine ⟨check, w, later, last, passing, fun ω o fuel s log watched => ?_⟩
  obtain ⟨value, -, marker⟩ := passing.own
  obtain ⟨cells, remembered, attempts, used, baseline⟩ := watch_remembers marker watched passing.same
  refine ⟨passing.healthy.1.trans attempts, ⟨_, marker, fun before p sub => ?_⟩, fun unmarked => ?_⟩
  · rw [used]
    exact remembered.each before p sub
  · obtain ⟨gated, -⟩ := remembered.used (used ▸ unmarked)
    obtain ⟨base, eq, same, created⟩ := passing.confirmed.image unmarked
    obtain ⟨q, mem, c, found, of⟩ := remembered.known base (baseline ▸ eq)
    obtain ⟨rfl, rfl, -⟩ := passing.asked
    exact ⟨base, ⟨q, mem, c, found, of⟩, remembered.same gated, of_same of passing.confirmed.running same, created,
      passing.confirmed.path unmarked gated⟩

end

/-! ## Checks without a marker

The container answers without its marker, and the check passes: once as it should, and once with a container that was not
running at first, an answer outside 2xx and an identity that was not known at once. -/

namespace Unmarked

open Removed (cfg)

def backend : DockerBackend := { Removed.backend with cfg := { cfg with attribution := .perContainer }, pathProof := true }

def st : State := { State.new with markers := [("hp-3", "m")], createdImages := [("hp-3", "sha256:1")] }

def io : StepIo := ⟨60000, .new .default .none, ⟨[]⟩, Removed.app, Removed.dep⟩

def info : ContainerInfo := ⟨"c2", "hp-3", [], true, "sha256:1", "t1", 0, [⟨8080, "tcp", "127.0.0.1", 38000⟩]⟩

/-- Time is what passes while the loop waits. -/
def outside (found : Nat → ContainerInfo) (status : Nat → Nat) : Outside Nat where
  now s := s
  inspect s := (.ok (some ⟨found s, none⟩), s)
  fetch _ _ s := (.ok ⟨status s, [], []⟩, s)
  prove _ s := (.ok (), s)
  wait ms s := s + ms

def attempts (first second : Nat) : List Attempt := [⟨0, .status first, true⟩, ⟨500, .status second, true⟩]

def base (restarts : Nat) : ContainerBaseline := ⟨"c2", "sha256:1", "t1", restarts⟩

def seen (first restarts : Nat) : Watched := ⟨attempts first 200, .healthy, 2, 500, true, some (base restarts), none⟩

def always : Outside Nat := outside (fun _ => info) fun _ => 200

/-- Surroundings in which the container passes. -/
def answers : (op : StepOp) → op.Answer
  | .host (.runHealth _) => seen 200 0
  | op => steadily Removed.img info op

def run : History StepSig × (Except StepError CheckEvidence × State) × StepIo :=
  played answers (health backend (.new 60000) "c2" "hp-3" 38000 "the container") st io

theorem ended : run.2.1.1.toOption.map (·.attempts) = some (attempts 200 200) := by decide

def check (spec : HealthSpec) : Check :=
  ⟨spec, s!"http://127.0.0.1:{38000}{spec.path}", "c2", 38000, some (.header markerHeader "m"), true⟩

theorem watched : (watch always (check (.firstTest "/")) 8080 3 0).map (·.1) = some (seen 200 0) := by decide

end Unmarked

open Unmarked in
/-- A check that passed on answers without the marker, every one of them accounted for. -/
theorem unmarked_attributed :
    ∃ ev check w later last log, Passing backend (.new 60000) st "c2" "hp-3" 38000 run.1.reverse ev check w later last ∧
      watch always check 8080 3 0 = some (w, log) ∧ w.usedUnmarked = true ∧ log.length = 2 ∧
      (∀ before p, before ++ [p] <+: log → p.Attributed (.header markerHeader "m") true before) ∧
      ∃ base, ContainerBaseline.of last = some base ∧ ⟨.host (.provePath "c2" 8080 38000), .ok ()⟩ ∈ later := by
  obtain ⟨ev, value, -⟩ := Option.map_eq_some_iff.mp ended
  obtain ⟨check, w, later, last, passing, all⟩ := health_attributed rfl (played_value value)
  obtain ⟨text, known, own⟩ := passing.own
  cases (known.symm.trans rfl : some text = some "m")
  have checked : check = Unmarked.check (.firstTest "/") := by
    obtain ⟨spec, target, id, port, marker, gated⟩ := check
    obtain ⟨rfl, rfl, rfl, rfl, rfl⟩ := passing.asked
    cases own
    decide
  obtain ⟨before, first, split, -⟩ := passing.around
  change run.1.reverse = _ at split
  have mem : ⟨.host (.runHealth check), w⟩ ∈ run.1 := by
    refine List.mem_reverse.mp ?_
    rw [split]
    exact List.mem_append_right _ List.mem_cons_self
  cases (played_answers mem : w = seen 200 0)
  obtain ⟨⟨w, log⟩, ran, rfl⟩ := Option.map_eq_some_iff.mp watched
  rw [← checked] at ran
  obtain ⟨attempts, ⟨marker, eq, each⟩, confirmed⟩ := all Nat always 3 0 log ran
  cases eq.symm.trans own
  obtain ⟨base, -, -, of, -, path⟩ := confirmed rfl
  refine ⟨ev, check, _, later, last, log, passing, ran, rfl, ?_, each, base, of, path⟩
  rw [← List.length_map (·.attempt), ← attempts, passing.healthy.1]
  rfl

namespace Unmarked

/-- Any answer below 500 counts. -/
def lenient : HealthSpec := ⟨"/", .notServerError, 500, 2, 60000⟩

/-- The container starts again between the attempts, and is not known before. -/
def restarting (ms : Nat) : ContainerInfo :=
  if ms < 500 then { info with startedAt := "" } else { info with restartCount := 1 }

def eventually : Outside Nat := outside restarting fun ms => if ms < 500 then 404 else 200

def stopped : ContainerInfo := { info with running := false, published := [] }

def strayed : History StepSig :=
  [⟨.host .elapsed, 0⟩, ⟨.host (.api (.containerInspect "c2") 60000000000), .ok (some stopped)⟩,
    ⟨.host (.runHealth (check lenient)), seen 404 1⟩, ⟨.host .elapsed, 1⟩,
    ⟨.host (.api (.containerInspect "c2") 59999999999), .ok (some (restarting 500))⟩,
    ⟨.host (.provePath "c2" 8080 38000), .ok ()⟩]

/-- The evidence that a finished check returned. -/
def evidence : Program StepSig (Except Empty (Except StepError CheckEvidence × State) × StepIo) → Option CheckEvidence
  | .done (.ok (.ok ev, _), _) => some ev
  | _ => none

def straying : Program StepSig (Except Empty (Except StepError CheckEvidence × State) × StepIo) :=
  serving (health { backend with cfg := { backend.cfg with health := lenient } } (.new 60000) "c2" "hp-3" 38000
    "the container") st io

end Unmarked

open Unmarked in
/-- A check passes though the container was not running before it and its port not published; though an answer outside 2xx
counted without marker, identity or proof; and though the container had restarted since the first attempt. -/
theorem passes_unproven :
    (∃ ev st' io', Program.Follows straying strayed (.done (.ok (.ok ev, st'), io')) ∧ ev.attempts = attempts 404 200) ∧
    (watch eventually (check lenient) 8080 3 0).map (fun seen => (seen.1, seen.2.map fun p =>
      (p.attempt.observation, p.proof.isSome, p.found.toOption.join.map (·.restartCount)))) =
      some (seen 404 1, [(.status 404, false, some 0), (.status 200, true, some 1)]) ∧
    (verifyMapping stopped 8080 38000).isSome = true := by
  refine ⟨?_, by decide, by decide⟩
  have passed : ((straying.follow strayed).bind evidence).map (·.attempts) = some (attempts 404 200) := by decide
  obtain ⟨ev, found, attempts⟩ := Option.map_eq_some_iff.mp passed
  obtain ⟨left, followed, ended⟩ := Option.bind_eq_some_iff.mp found
  have follows := Program.follow_follows followed
  unfold evidence at ended
  split at ended
  next ev' st' io' =>
    cases ended
    exact ⟨ev, st', io', follows, attempts⟩
  next => cases ended

end Harpoon.Docker
