import Harpoon.Laws.Poll
import Harpoon.Laws.Newest

/-!
# Where the tips go

A pass that found a new tip leaves an event of it waiting, and that event is the newest one, when polling
meets the commit for the first time since the registration: an event is recognised by its commit, whatever
became of it. A branch that returns to a commit that polling queued before is not queued again, and the
tip is recorded as seen all the same.
-/

namespace Harpoon.Git

open Deploy Control Interact Process

/-! ## The newest of the waiting events -/

/-- The events that no execution took: those held, and one that is selected. -/
def undelivered (ctl : ControlState) (app : ApplicationId) : List Control.Event :=
  (ctl.eventsOf app).filter fun e => e.status.isWaiting

/-- The newest undelivered event of the application is of this commit. -/
def NewestNames (ctl : ControlState) (app : ApplicationId) (sha : String) : Prop :=
  ∃ e, newestOf (undelivered ctl app) = some e ∧ e.record.revision = sha

theorem newestOf_append {waiting : List Control.Event} {e : Control.Event}
    (bounded : ∀ x ∈ waiting, x.record.receivedMs ≤ e.record.receivedMs) : newestOf (waiting ++ [e]) = some e := by
  cases waiting with
  | nil => rfl
  | cons a waiting =>
    have newest : newestOf (a :: waiting) = some (waiting.foldl later a) := rfl
    have before := bounded _ (newestOf_mem newest)
    show some ((waiting ++ [e]).foldl later a) = some e
    rw [List.foldl_append]
    exact congrArg some (if_pos before)

/-- With nothing selected, the waiting events are the held ones. -/
theorem undelivered_eq_held {ctl : ControlState} {app : ApplicationId} (free : ctl.pendingSelection app = none) :
    undelivered ctl app = ctl.held app := by
  refine List.filter_congr fun e mem => ?_
  obtain ⟨mem, here⟩ := ControlState.mem_eventsOf.mp mem
  have unselected := ControlState.pendingSelection_none.mp free e mem here
  cases status : e.status with
  | selected => exact absurd status unselected
  | held | dismissed | superseded _ | executed | failed => rfl

/-- The executor then runs the commit. -/
theorem NewestNames.next {ctl : ControlState} {app : ApplicationId} {sha : String} {deployments : List Deployment}
    (names : NewestNames ctl app sha) (free : ctl.pendingSelection app = none)
    (unpaused : isPaused app deployments ctl = false) :
    ∃ e superseded, nextExecution deployments ctl app = .newest e superseded ∧ e.record.revision = sha := by
  obtain ⟨e, newest, revision⟩ := names
  rw [undelivered_eq_held free] at newest
  exact ⟨e, _, nextExecution_eq unpaused free newest, revision⟩

/-! ## What a pass queues -/

/-- The head moved to a commit that polling did not queue under this registration. -/
def Queues (repo : RepoRec) (s : Restored) (head : String × String) : Prop :=
  NewTip repo s.git head ∧ s.control.event repo.app (pollDelivery repo.name (s.git.incarnation repo.app) head.2) = none

instance {repo : RepoRec} {git : GitState} {head : String × String} : Decidable (Unseen repo git head) :=
  inferInstanceAs (Decidable (_ ∧ _))

instance {repo : RepoRec} {git : GitState} {head : String × String} : Decidable (NewTip repo git head) :=
  inferInstanceAs (Decidable (_ ∧ _))

instance {repo : RepoRec} {s : Restored} {head : String × String} : Decidable (Queues repo s head) :=
  inferInstanceAs (Decidable (_ ∧ _))

/-- The commits so far, and that of the head when it is queued. -/
def enqueue (repo : RepoRec) (s : Restored) (shas : List String) (head : String × String) : List String :=
  if Queues repo s head ∧ head.2 ∉ shas then shas ++ [head.2] else shas

/-- The commits that the heads queue: each once, in the order of the listing. -/
def enqueued (repo : RepoRec) (s : Restored) (heads : List (String × String)) : List String :=
  heads.foldl (enqueue repo s) []

section

variable {repo : RepoRec} {firstPass : Bool} {s : Restored} {done heads before rest : List (String × String)}
  {head x : String × String} {sha : String} {shas : List String}

theorem enqueued_concat : enqueued repo s (done ++ [head]) = enqueue repo s (enqueued repo s done) head := by
  rw [enqueued, List.foldl_append]
  rfl

theorem mem_enqueue : sha ∈ enqueue repo s shas head ↔ sha ∈ shas ∨ Queues repo s head ∧ head.2 = sha := by
  unfold enqueue
  split
  next fresh =>
    rw [List.mem_append, List.mem_singleton]
    constructor
    · rintro (old | rfl)
      · exact .inl old
      · exact .inr ⟨fresh.1, rfl⟩
    · rintro (old | ⟨_, rfl⟩)
      · exact .inl old
      · exact .inr rfl
  next known =>
    refine ⟨.inl, ?_⟩
    rintro (old | ⟨queues, rfl⟩)
    · exact old
    · exact Decidable.byContradiction fun new => known ⟨queues, new⟩

theorem mem_foldl_enqueue : sha ∈ heads.foldl (enqueue repo s) shas ↔
    sha ∈ shas ∨ ∃ x ∈ heads, Queues repo s x ∧ x.2 = sha := by
  induction heads generalizing shas with
  | nil => simp
  | cons x heads ih =>
    rw [List.foldl_cons, ih, mem_enqueue]
    simp only [List.mem_cons, exists_eq_or_imp, or_assoc]

theorem mem_enqueued : sha ∈ enqueued repo s heads ↔ ∃ x ∈ heads, Queues repo s x ∧ x.2 = sha := by
  rw [enqueued, mem_foldl_enqueue]
  simp

/-- Heads of commits that are queued already add nothing. -/
theorem foldl_enqueue_eq (known : ∀ x ∈ heads, Queues repo s x → x.2 ∈ shas) : heads.foldl (enqueue repo s) shas = shas := by
  induction heads with
  | nil => rfl
  | cons x heads ih =>
    have same : enqueue repo s shas x = shas := if_neg fun new => new.2 (known x List.mem_cons_self new.1)
    rw [List.foldl_cons, same]
    exact ih fun y mem => known y (List.mem_cons_of_mem _ mem)

/-- The commit of a head is queued last when no head behind it brings a commit of its own. -/
theorem enqueued_getLast (queues : Queues repo s x) (first : ∀ y ∈ before, Queues repo s y → y.2 ≠ x.2)
    (last : ∀ y ∈ rest, Queues repo s y → y.2 = x.2 ∨ ∃ z ∈ before, Queues repo s z ∧ z.2 = y.2) :
    (enqueued repo s (before ++ x :: rest)).getLast? = some x.2 := by
  have new : x.2 ∉ enqueued repo s before := fun old => by
    obtain ⟨y, mem, queues, same⟩ := mem_enqueued.mp old
    exact first y mem queues same
  have queued : enqueue repo s (enqueued repo s before) x = enqueued repo s before ++ [x.2] := if_pos ⟨queues, new⟩
  have all : enqueued repo s (before ++ x :: rest) = enqueued repo s before ++ [x.2] := by
    rw [enqueued, List.foldl_append, List.foldl_cons, ← enqueued, queued]
    refine foldl_enqueue_eq fun y mem queues => ?_
    rcases last y mem queues with same | earlier
    · exact List.mem_append_right _ (List.mem_singleton.mpr same)
    · exact List.mem_append_left _ (mem_enqueued.mpr earlier)
  rw [all, List.getLast?_append]
  rfl

end

/-- Every reading of the clock is at least those before it, and the times of what was waiting. -/
def Clock (repo : RepoRec) (s : Restored) (h : History PollSig) : Prop :=
  ∀ earlier (ms : Nat) k, h = earlier ++ ⟨.now, ms⟩ :: k →
    (∀ e ∈ undelivered s.control repo.app, e.record.receivedMs ≤ ms) ∧ ∀ ms', ⟨.now, ms'⟩ ∈ earlier → ms' ≤ ms

/-- What waits once the heads `done` are taken in: their events, behind what waited before. -/
structure Lined (repo : RepoRec) (s : Restored) (done : List (String × String)) (ctl : ControlState)
    (h : History PollSig) : Prop where
  fresh : ∀ sha, ctl.event repo.app (pollDelivery repo.name (s.git.incarnation repo.app) sha) = none ↔
    s.control.event repo.app (pollDelivery repo.name (s.git.incarnation repo.app) sha) = none ∧
      sha ∉ enqueued repo s done
  waiting : ∃ new, undelivered ctl repo.app = undelivered s.control repo.app ++ new ∧
    new.map (fun e => e.record.revision) = enqueued repo s done ∧
    (∀ e ∈ new, ⟨.now, e.record.receivedMs⟩ ∈ h) ∧
    (Clock repo s h → ∀ e, new.getLast? = some e → newestOf (undelivered ctl repo.app) = some e)

section

variable {repo : RepoRec} {firstPass : Bool} {s : Restored} {done heads : List (String × String)} {ctl ctl' : ControlState}
  {p : Poller} {h k : History PollSig} {head : String × String} {sha : String} {ms : Nat}

theorem Clock.of_append (clock : Clock repo s (h ++ k)) : Clock repo s h := by
  rintro earlier ms later rfl
  exact clock earlier ms (later ++ k) (List.append_assoc _ _ _)

theorem Lined.start : Lined repo s [] s.control [] where
  fresh sha := by simp [enqueued]
  waiting := by
    refine ⟨[], (List.append_nil _).symm, rfl, fun e mem => ?_, fun _ e last => ?_⟩
    · cases mem
    · cases last

theorem Lined.asked (lined : Lined repo s done ctl h) : Lined repo s done ctl (h ++ k) where
  fresh := lined.fresh
  waiting := by
    obtain ⟨new, waiting, revisions, times, newest⟩ := lined.waiting
    exact ⟨new, waiting, revisions, fun e mem => List.mem_append_left _ (times e mem), fun clock => newest clock.of_append⟩

/-- A head that queues nothing. -/
theorem Lined.same (lined : Lined repo s done ctl h) (known : Queues repo s head → head.2 ∈ enqueued repo s done) :
    Lined repo s (done ++ [head]) ctl h := by
  have same : enqueued repo s (done ++ [head]) = enqueued repo s done := by
    rw [enqueued_concat]
    exact if_neg fun new => new.2 (known new.1)
  exact ⟨same ▸ lined.fresh, same ▸ lined.waiting⟩

theorem undelivered_push {x : EventRec} (applied : ctl.apply (.event x) = .ok ctl') (here : x.app = repo.app) :
    undelivered ctl' repo.app = undelivered ctl repo.app ++ [.hold x] := by
  obtain ⟨free, rfl⟩ := ControlState.applyEvent_ok.mp applied
  show List.filter _ (List.filter _ (ctl.events.rows ++ [Event.hold x])) = _
  have mine : decide ((Event.hold x).record.app = repo.app) = true := decide_eq_true here
  rw [List.filter_append, List.filter_append, List.filter_cons, if_pos mine]
  rfl

/-- A head whose event was stored. -/
theorem Lined.queued (lined : Lined repo s done ctl h) (tip : NewTip repo s.git head)
    (free : Fresh ctl (pollEvent repo s.git firstPass head.2 ms))
    (applied : ctl.apply (.event (pollEvent repo s.git firstPass head.2 ms).record) = .ok ctl') :
    Lined repo s (done ++ [head]) ctl' (h ++ [⟨.now, ms⟩] ++ k) := by
  obtain ⟨unknown, new⟩ := (lined.fresh head.2).mp free
  have grows : enqueued repo s (done ++ [head]) = enqueued repo s done ++ [head.2] := by
    rw [enqueued_concat]
    exact if_pos ⟨⟨tip, unknown⟩, new⟩
  refine ⟨fun sha => ?_, ?_⟩
  · have found : ctl'.event repo.app (pollDelivery repo.name (s.git.incarnation repo.app) sha) =
        if head.2 = sha then some (.hold (pollEvent repo s.git firstPass head.2 ms).record)
        else ctl.event repo.app (pollDelivery repo.name (s.git.incarnation repo.app) sha) := by
      obtain ⟨_, rfl⟩ := ControlState.applyEvent_ok.mp applied
      rw [ControlState.event_eq, Keyed.Table.find_push]
      by_cases same : head.2 = sha
      · rw [if_pos same, if_pos (by rw [← same]; rfl)]
      · rw [if_neg same, if_neg fun key => same (pollDelivery_inj (congrArg Prod.snd key))]
        rfl
    rw [found, grows, List.mem_append, List.mem_singleton]
    by_cases same : head.2 = sha
    · simp [same]
    · rw [if_neg same, lined.fresh]
      simp [Ne.symm same]
  · obtain ⟨events, waiting, revisions, times, newest⟩ := lined.waiting
    have now : (⟨.now, ms⟩ : Interact.Event PollSig) ∈ h ++ [⟨.now, ms⟩] ++ k :=
      List.mem_append_left _ (List.mem_append_right _ List.mem_cons_self)
    have pushed : undelivered ctl' repo.app = _ := undelivered_push applied rfl
    refine ⟨events ++ [.hold (pollEvent repo s.git firstPass head.2 ms).record], ?_, ?_, fun e mem => ?_, fun clock e last => ?_⟩
    · rw [pushed, waiting, List.append_assoc]
    · rw [List.map_append, revisions, grows]
      rfl
    · rcases List.mem_append.mp mem with old | own
      · exact List.mem_append_left _ (List.mem_append_left _ (times e old))
      · cases List.mem_singleton.mp own
        exact now
    · rw [List.getLast?_append] at last
      cases last
      obtain ⟨past, readings⟩ := clock h ms k (by rw [List.append_assoc]; rfl)
      rw [pushed]
      refine newestOf_append fun x mem => ?_
      rw [waiting] at mem
      rcases List.mem_append.mp mem with old | own
      · exact past x old
      · exact readings _ (times x own)

end

section

variable {repo : RepoRec} {firstPass : Bool} {s t : Restored} {done heads left right before rest : List (String × String)}
  {p : Poller} {h k : History PollSig} {head x : String × String} {sha : String} {refs : List RemoteRef}

/-- Step lemma: what one head leaves waiting. -/
theorem linedHead_meets (lined : Lined repo s done p.ctl h) (unseen : Unseen repo s.git head) :
    Meets remember (fun _ _ => True) (queueHead repo firstPass s.git head.1 head.2)
      (fun _ p' h' => ∀ ms, Lined repo s (done ++ [head]) p'.ctl ((h' ++ [⟨.now, ms⟩]) ++
        [⟨.git (.seen ⟨repo.name, refName head.1, head.2, ms⟩), Written.acknowledged⟩]))
      (fun _ p' h' => (∀ e ∈ h', Stored e) → Lined repo s done p'.ctl h') p h := by
  unfold queueHead
  cases was : previousCommit repo s.git head.1 with
  | none =>
    have still : ¬ Queues repo s head := fun queues => by
      have tip := queues.1.2
      rw [was] at tip
      cases tip
    exact fun ms => (lined.same fun queues => absurd queues still).asked.asked
  | some old =>
    have tip : NewTip repo s.git head := ⟨unseen, by rw [was]; rfl⟩
    refine meets_bind.mpr (meets_perform.mpr ⟨trivial, fun ms => meets_bind.mpr (queue_meets ?_ ?_ ?_)⟩)
    · exact fun _ _ _ => lined.asked
    · intro _ known ms
      refine (Lined.same lined.asked fun queues => ?_).asked.asked
      exact Decidable.byContradiction fun new => known ((lined.fresh head.2).mpr ⟨queues.2, new⟩)
    · refine fun _ free => ⟨trivial, fun ctl applied => ?_, fun e stored f complete => ?_⟩
      · exact fun ms => (lined.queued (k := [_]) tip free applied).asked.asked
      · cases complete _ (List.mem_append_right _ List.mem_cons_self)

/-- What a pass leaves waiting: the events of the heads it took in. -/
def LeavesLined (repo : RepoRec) (firstPass : Bool) (refs : List RemoteRef) (s : Restored) (ctl : ControlState)
    (k : History PollSig) : Prop :=
  ∃ left right, branchHeads refs = left ++ right ∧ (s.after k).control = ctl ∧ Lined repo s left ctl k ∧
    ∀ x, right.head? = some x → RefusedHead repo firstPass s x

theorem pollRepo_lined {out : List String} : Meets remember (PassAsks repo firstPass) (pollRepo repo firstPass)
    (fun _ _ h => PassLeaves repo (LeavesLined repo firstPass) h)
    (fun _ _ h => PassLeaves repo (LeavesLined repo firstPass) h) out [] := by
  refine pollRepo_meets_of fun refs s out => ?_
  let I : List (String × String) → ControlState → History PollSig → Prop := fun done ctl h =>
    TakenIn repo firstPass s done ctl h ∧ Lined repo s done ctl h
  have heads : Meets remember (Asks repo firstPass s) (pollHeads repo firstPass s.git (branchHeads refs))
      (fun _ p k => I ([] ++ branchHeads refs) p.ctl k)
      (fun _ p k => (∀ e ∈ k, Stored e) → ∃ left x right, branchHeads refs = left ++ x :: right ∧ I ([] ++ left) p.ctl k ∧
        RefusedHead repo firstPass s x) ⟨s.control, out⟩ [] := pollHeads_meets_of (I := I)
    (fun both seen => ⟨both.1.skipped seen, both.2.same fun queues => absurd queues.1.1 seen⟩)
    (fun both unseen => ((linedHead_meets both.2 unseen).and (takenHead_meets both.1 unseen)).mono
      (fun _ _ _ ends ms => ⟨ends.2 ms, ends.1 ms⟩)
      fun _ _ _ ends complete => ⟨⟨(ends.2 complete).1, ends.1 complete⟩, (ends.2 complete).2⟩)
    ⟨.start, .start⟩
  refine heads.mono (fun _ p k both _ => ?_) fun _ p k ends complete => ?_
  · exact ⟨_, [], (List.append_nil _).symm, both.1.disk, both.2, fun x no => by cases no⟩
  · obtain ⟨left, x, right, split, both, refused⟩ := ends complete
    exact ⟨left, x :: right, split, both.1.disk, both.2, fun y first => by cases first; exact refused⟩

/-! ## One pass -/

/-- Polling meets the commit of this head for the first time, or its event waits as the newest one already; and
no head listed behind the first one with the commit brings a commit of its own. -/
inductive Brings (repo : RepoRec) (firstPass : Bool) (s : Restored) (heads : List (String × String)) (sha : String) : Prop where
  | waits (names : NewestNames s.control repo.app sha) (quiet : ∀ x ∈ heads, ¬ Queues repo s x)
  | queues (before rest : List (String × String)) (x : String × String) (split : heads = before ++ x :: rest)
      (queues : Queues repo s x) (commit : x.2 = sha)
      (accepted : ∀ y ∈ before ++ [x], ¬ RefusedHead repo firstPass s y)
      (first : ∀ y ∈ before, Queues repo s y → y.2 ≠ sha)
      (last : ∀ y ∈ rest, Queues repo s y → y.2 = sha ∨ ∃ z ∈ before, Queues repo s z ∧ z.2 = y.2)

/-- The first head that is refused stands behind those that are not. -/
theorem split_of_accepted {heads before rest left right : List (String × String)} {x : String × String}
    {refused : String × String → Prop} (split : heads = before ++ x :: rest) (split' : heads = left ++ right)
    (accepted : ∀ y ∈ before ++ [x], ¬ refused y) (stops : ∀ y, right.head? = some y → refused y) :
    ∃ more, left = before ++ x :: more ∧ ∀ y ∈ more, y ∈ rest := by
  rw [split] at split'
  rcases List.append_eq_append_iff.mp split' with ⟨more, rfl, later⟩ | ⟨more, rfl, earlier⟩
  · cases more with
    | nil =>
      have next : x :: rest = right := later
      exact absurd (stops x (by rw [← next]; rfl)) (accepted x (List.mem_append_right _ List.mem_cons_self))
    | cons y more =>
      cases later
      exact ⟨more, rfl, fun y mem => List.mem_append_left _ mem⟩
  · cases more with
    | nil => exact absurd (stops x (by rw [earlier]; rfl)) (accepted x (List.mem_append_right _ List.mem_cons_self))
    | cons y more =>
      exact absurd (stops y (by rw [earlier]; rfl)) (accepted y (by simp))

/-- The newest event waiting after a pass that took in `done`. -/
theorem Lined.names {ctl : ControlState} (lined : Lined repo s done ctl h) (clock : Clock repo s h)
    (last : (enqueued repo s done).getLast? = some sha) : NewestNames ctl repo.app sha := by
  obtain ⟨new, _, revisions, _, newest⟩ := lined.waiting
  rw [← revisions, List.getLast?_map] at last
  obtain ⟨e, found, rfl⟩ := Option.map_eq_some_iff.mp last
  exact ⟨e, newest clock e found, rfl⟩

/-- Run lemma of one pass. -/
theorem polled_names (polled : Polled repo firstPass s refs h) (registered : s.git.repos.find repo.name = some repo)
    (clock : Clock repo s h) (brings : Brings repo firstPass s (branchHeads refs) sha) :
    NewestNames (s.after h).control repo.app sha := by
  obtain ⟨out, result, follows⟩ := polled.asked
  have leaves : PassLeaves repo (LeavesLined repo firstPass) h := by
    have ended := Program.Obeys.ended pollRepo_lined follows
    rw [seen_remember] at ended
    obtain ⟨_ | _, _⟩ := result <;> exact ended
  obtain ⟨k, ctl, rfl, left, right, split, disk, lined, stops⟩ := leaves refs s polled.answered registered
  have after : (s.after (opening repo refs s ++ k)).control = ctl := by
    rw [Restored.after_append]
    exact disk
  have clock : Clock repo s k := by
    rintro earlier ms later rfl
    obtain ⟨past, readings⟩ := clock (opening repo refs s ++ earlier) ms later (List.append_assoc _ _ _).symm
    exact ⟨past, fun ms' mem => readings ms' (List.mem_append_right _ mem)⟩
  rw [after]
  cases brings with
  | waits names quiet =>
    have nothing : enqueued repo s left = [] := foldl_enqueue_eq fun x mem queues =>
      absurd queues (quiet x (split ▸ List.mem_append_left _ mem))
    obtain ⟨new, waiting, revisions, _⟩ := lined.waiting
    rw [nothing, List.map_eq_nil_iff] at revisions
    rw [revisions, List.append_nil] at waiting
    unfold NewestNames
    rw [waiting]
    exact names
  | queues before rest x split' queues commit accepted first last =>
    subst commit
    obtain ⟨more, rfl, within⟩ := split_of_accepted split' split accepted stops
    exact lined.names clock (enqueued_getLast queues first fun y mem => last y (within y mem))

end

/-! ## Runs -/

/-- A pass in a run: what it polls, what the remote lists, what the journal held, and what it asked. -/
structure PollPass where
  repo : RepoRec
  firstPass : Bool
  refs : List RemoteRef
  before : Restored
  asked : History PollSig

/-- What the journal holds after the pass. -/
def PollPass.left (p : PollPass) : Restored := p.before.after p.asked

/-- The passes so far, from an empty journal, in which nothing went wrong. Between them, any records are
written: those of other commands, and those of passes that were cut short. -/
inductive Course : Restored → List PollPass → Prop where
  | start : Course ⟨.new, .new⟩ []
  | others {s t : Restored} {passes : List PollPass} (course : Course s passes) (wrote : Restored.Leads (fun _ => True) s t) :
      Course t passes
  | pass {p : PollPass} {passes : List PollPass} (course : Course p.before passes)
      (registered : p.before.git.repos.find p.repo.name = some p.repo)
      (polled : Polled p.repo p.firstPass p.before p.refs p.asked) : Course p.left (passes ++ [p])

/-- The newest undelivered event is of the commit; with nothing selected, it is what the executor runs next. -/
def PollPass.Waits (p : PollPass) (sha : String) : Prop :=
  NewestNames p.left.control p.repo.app sha ∧
    ∀ deployments, p.left.control.pendingSelection p.repo.app = none → isPaused p.repo.app deployments p.left.control = false →
      ∃ e superseded, nextExecution deployments p.left.control p.repo.app = .newest e superseded ∧ e.record.revision = sha

/-- The clock did not go back, and polling meets the commit for the first time, or it waits already. -/
def PollPass.Meets (p : PollPass) (sha : String) : Prop :=
  Clock p.repo p.before p.asked ∧ Brings p.repo p.firstPass p.before (branchHeads p.refs) sha

/-- After every pass of a run, the newest undelivered event is of the tip that the pass found, when the pass met
it for the first time. -/
theorem tips_wait {s : Restored} {passes : List PollPass} (course : Course s passes) :
    ∀ p ∈ passes, ∀ head ∈ branchHeads p.refs, NewTip p.repo p.before.git head → p.Meets head.2 → p.Waits head.2 := by
  induction course with
  | start => exact fun _ made => by cases made
  | others _ _ ih => exact ih
  | pass _ registered polled ih =>
    intro p made head listed tip met
    rcases List.mem_append.mp made with earlier | last
    · exact ih p earlier head listed tip met
    · cases List.mem_singleton.mp last
      have names := polled_names polled registered met.1 met.2
      exact ⟨names, fun _ free unpaused => names.next free unpaused⟩

/-! ### A branch that returns to a commit -/

namespace Returned

open Twice (repo old tip)

def refs (sha : String) : List RemoteRef := [⟨"refs/heads/main", sha⟩]

def answers (before : Restored) (sha : String) (ms : Nat) : (op : PollOp) → op.Answer
  | .prepare => Except.ok ()
  | .lsRemote _ => Except.ok (refs sha)
  | .openWriter => Except.ok before
  | .now => ms
  | .control _ | .git _ => Written.acknowledged

/-- A pass that finds the branch at a commit. -/
def pass (before : Restored) (sha : String) (ms : Nat) : PollPass :=
  ⟨repo, false, refs sha, before, (((pollRepo repo false).toProgram []).play (S := PollSig) (answers before sha ms)).1⟩

/-- The branch moves to the tip, goes back, and moves to the tip again. -/
def moved : PollPass := pass Twice.start tip 7

def back : PollPass := pass moved.left old 8

def again : PollPass := pass back.left tip 9

theorem polled (before : Restored) (sha : String) (ms : Nat) :
    Polled repo false before (refs sha) (pass before sha ms).asked where
  asked := ⟨[], _, Program.play_follows (S := PollSig) (answers before sha ms) ((pollRepo repo false).toProgram [])⟩
  answered := by
    rintro ⟨op, answer⟩ mem
    have same : answer = answers before sha ms op := Program.play_answers mem
    subst same
    cases op <;> first | exact rfl | exact trivial

theorem heads (sha : String) : branchHeads (refs sha) = [("main", sha)] := by
  have branch : Wire.stripPrefix "refs/heads/" "refs/heads/main" = some "main" := by decide
  unfold branchHeads refs
  rw [List.filterMap_cons, branch]
  rfl

/-- With no event yet, the first pass that finds the tip meets it for the first time. -/
theorem pass_meets {before : Restored} {sha : String} {ms : Nat} (idle : undelivered before.control repo.app = [])
    (queues : Queues repo before ("main", sha)) (checked : (pollEvent repo before.git false sha 0).check = .ok ()) :
    (pass before sha ms).Meets sha := by
  constructor
  · intro earlier now k split
    have reading : ∀ m, (⟨.now, m⟩ : Interact.Event PollSig) ∈ (pass before sha ms).asked → m = ms :=
      fun m mem => Program.play_answers mem
    refine ⟨fun e mem => ?_, fun m mem => ?_⟩
    · have mem : e ∈ undelivered before.control repo.app := mem
      rw [idle] at mem
      cases mem
    · have same := reading now (split ▸ List.mem_append_right _ List.mem_cons_self)
      exact Nat.le_of_eq ((reading m (split ▸ List.mem_append_left _ mem)).trans same.symm)
  · refine .queues [] [] ("main", sha) (heads sha) queues rfl ?_ ?_ ?_
    · intro y mem refused
      cases List.mem_singleton.mp mem
      rcases refused.2 with bad | ⟨e, found, _⟩
      · exact bad checked
      · cases queues.2.symm.trans found
    · exact fun y mem => by cases mem
    · exact fun y mem => by cases mem

theorem course_pass {s : Restored} {passes : List PollPass} {sha : String} {ms : Nat} (course : Course s passes)
    (registered : s.git.repos.find repo.name = some repo) : Course (pass s sha ms).left (passes ++ [pass s sha ms]) :=
  .pass course registered (polled s sha ms)

theorem course_moved : Course moved.left ([] ++ [moved]) :=
  course_pass (.others .start Twice.start_reachable) (by decide)

theorem course_again : Course again.left ([] ++ [moved] ++ [back] ++ [again]) :=
  course_pass (course_pass course_moved (by decide +kernel)) (by decide +kernel)

theorem newest_again : (newestOf (undelivered again.left.control repo.app)).map (fun e => e.record.revision) = some old := by
  decide +kernel

theorem not_waits {before : Restored} {sha other : String} {ms : Nat}
    (newest : (newestOf (undelivered (pass before sha ms).left.control repo.app)).map (fun e => e.record.revision) = some other)
    (differs : sha ≠ other) : ¬ (pass before sha ms).Waits sha := by
  rintro ⟨⟨e, found, revision⟩, _⟩
  have found : newestOf (undelivered (pass before sha ms).left.control repo.app) = some e := found
  rw [found] at newest
  exact differs (revision.symm.trans (Option.some.inj newest))

end Returned

theorem tips_wait_moved : Returned.moved.Waits Twice.tip :=
  tips_wait Returned.course_moved Returned.moved List.mem_cons_self ("main", Twice.tip)
    (Returned.heads Twice.tip ▸ List.mem_cons_self) (by decide)
    (Returned.pass_meets (by decide) (by decide) (Journal.ok_of_toOption (by decide)))

/-- The branch returned to a commit that was queued before: nothing was queued, and the older commit is deployed. -/
theorem returned_tip_dropped : ∃ s passes p, Course s passes ∧ p ∈ passes ∧ ("main", Twice.tip) ∈ branchHeads p.refs ∧
    NewTip p.repo p.before.git ("main", Twice.tip) ∧ ¬ p.Waits Twice.tip :=
  ⟨_, _, Returned.again, Returned.course_again, List.mem_append_right _ List.mem_cons_self,
    Returned.heads Twice.tip ▸ List.mem_cons_self, by decide +kernel, Returned.not_waits Returned.newest_again (by decide)⟩

end Harpoon.Git
