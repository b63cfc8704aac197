import Harpoon.Git.Poll
import Harpoon.Laws.Operations
import Harpoon.Laws.Sources

/-!
# Polling again

A poll queues the event of a new commit and then records that it saw the commit. One that stops between
the two leaves an event whose branch still looks unmoved, so the next poll comes to the same commit again
and queues the same delivery. That is a repeat only when both say the same source: the first pass of a
process says another one than its later passes, and then the poll refuses its own event.
-/

namespace Harpoon.Git

open Deploy Control Interact Process

/-! ## Queueing an event -/

/-- The event is refused. -/
def Refuses (ctl : ControlState) (ev : Incoming) : Prop :=
  ev.check ≠ .ok () ∨ ∃ old, ctl.event ev.app ev.deliveryId = some old ∧
    ¬ (old.record.source = ev.source ∧ old.record.revision = ev.revision)

/-- The event is accepted for the first time. -/
def Fresh (ctl : ControlState) (ev : Incoming) : Prop := ctl.event ev.app ev.deliveryId = none

theorem check_of_accepted {ctl : ControlState} {ev : Incoming} (accepted : ¬ Refuses ctl ev) : ev.check = .ok () := by
  cases checked : ev.check with
  | ok _ => rfl
  | error why => exact absurd (.inl fun same => by cases checked.symm.trans same) accepted

section

variable {σ : Type} {ev : Incoming} {s : σ}

/-- What queueing an event comes to. -/
theorem queueEvent_meets {see : σ → Interact.Event ControlSig → σ} {rule : σ → ControlRecord → Prop} {ctl : ControlState}
    {post : Ingress → ControlState → σ → Prop} {fail : ControlError → ControlState → σ → Prop}
    (refused : Refuses ctl ev → ∀ e, fail e ctl s)
    (repeated : ¬ Refuses ctl ev → ¬ Fresh ctl ev → post .duplicate ctl s)
    (fresh : ¬ Refuses ctl ev → Fresh ctl ev → rule s (.event ev.record) ∧
      (∀ ctl', ctl.apply (.event ev.record) = .ok ctl' → post .held ctl' (see s ⟨.event ev.record, .acknowledged⟩)) ∧
      ∀ e stored, fail (.journal e) ctl (see s ⟨.event ev.record, .failed e stored⟩)) :
    Meets see rule (queueEvent ev) post fail ctl s := by
  refine meets_bind.mpr (meets_ofExcept (fun _ checked => meets_bind.mpr (meets_get.mpr ?_)) fun why no => ?_)
  · cases found : ctl.event ev.app ev.deliveryId with
    | some old =>
      dsimp only
      split
      next same =>
        refine repeated ?_ fun free => by cases found.symm.trans free
        rintro (bad | ⟨old', found', other⟩)
        · exact bad checked
        · cases found.symm.trans found'
          exact other same
      next other => exact refused (.inr ⟨old, found, other⟩) _
    | none =>
      have free : ctl.events.find (Control.Event.hold ev.record).key = none := found
      have applies : ctl.apply (.event ev.record) = _ := ControlState.applyEvent_ok.mpr ⟨free, rfl⟩
      have accepted : ¬ Refuses ctl ev := by
        rintro (bad | ⟨old, found', _⟩)
        · exact bad checked
        · cases found.symm.trans found'
      obtain ⟨allowed, stored, lost⟩ := fresh accepted found
      exact meets_bind.mpr (write_meets allowed applies (stored _ applies) lost)
  · exact refused (.inl fun checked => by cases no.symm.trans checked) _

/-- The same, as the poll sees it. -/
theorem queue_meets {see : σ → Interact.Event PollSig → σ} {rule : σ → PollOp → Prop} {p : Poller}
    {post : Ingress → Poller → σ → Prop} {fail : Fail → Poller → σ → Prop}
    (refused : Refuses p.ctl ev → ∀ f, fail f p s)
    (repeated : ¬ Refuses p.ctl ev → ¬ Fresh p.ctl ev → post .duplicate p s)
    (fresh : ¬ Refuses p.ctl ev → Fresh p.ctl ev → rule s (.control (.event ev.record)) ∧
      (∀ ctl, p.ctl.apply (.event ev.record) = .ok ctl →
        post .held { p with ctl := ctl } (see s ⟨.control (.event ev.record), Written.acknowledged⟩)) ∧
      ∀ e stored f, fail f p (see s ⟨.control (.event ev.record), Written.failed e stored⟩)) :
    Meets see rule (Polling.queue ev) post fail p s := by
  have inner : Meets (fun s (w : Interact.Event ControlSig) => see s ⟨.control w.op, w.answer⟩)
      (fun s r => rule s (.control r)) (queueEvent ev) (fun i ctl => post i { p with ctl := ctl })
      (fun _ ctl s => ∀ f, fail f { p with ctl := ctl } s) p.ctl s :=
    queueEvent_meets (fun no _ => refused no) repeated fun accepted free =>
      have ⟨allowed, stored, lost⟩ := fresh accepted free
      ⟨allowed, stored, fun e stored => lost e stored⟩
  refine meets_bind.mpr (meets_attempt.mpr (meets_zoom.mpr ?_))
  refine Meets.mono (Meets.via ?_ inner) ?_ ?_
  · exact fun r s allowed => ⟨allowed, fun _ => rfl⟩
  · exact fun i ctl s holds => holds
  · exact fun e ctl s fails => fails _

/-- What recording an observation comes to. -/
theorem observe_meets {see : σ → Interact.Event PollSig → σ} {rule : σ → PollOp → Prop} {p : Poller} {x : SeenRec}
    {post : Unit → Poller → σ → Prop} {fail : Fail → Poller → σ → Prop} (allowed : rule s (.git (.seen x)))
    (stored : post () p (see s ⟨.git (.seen x), Written.acknowledged⟩))
    (lost : ∀ e stored f, fail f p (see s ⟨.git (.seen x), Written.failed e stored⟩)) :
    Meets see rule (Polling.observe x) post fail p s := by
  refine meets_bind.mpr (meets_perform.mpr ⟨allowed, fun answer => ?_⟩)
  cases answer with
  | acknowledged => exact stored
  | failed e stored => exact lost e stored _

end

/-! ## What the journal holds -/

/-- Apply a record that the journal holds. A record that does not apply changes nothing. -/
def GitState.applied (s : GitState) (r : GitRecord) : GitState :=
  match s.apply r with
  | .ok s' => s'
  | .error _ => s

namespace Restored

/-- Other records were written, of the sources only such as `ok` allows. -/
inductive Leads (ok : GitRecord → Prop) : Restored → Restored → Prop where
  | refl {s : Restored} : Leads ok s s
  | control {s t : Restored} {ctl : ControlState} {r : ControlRecord} (before : Leads ok s t)
      (applied : t.control.apply r = .ok ctl) : Leads ok s { t with control := ctl }
  | git {s t : Restored} {git : GitState} {r : GitRecord} (before : Leads ok s t) (applied : t.git.apply r = .ok git)
      (allowed : ok r) : Leads ok s { t with git := git }

/-- What any accepted records leave. -/
def Reachable (s : Restored) : Prop := Leads (fun _ => True) ⟨.new, .new⟩ s

/-- What a later reader of the journal sees, once the poll asked and was answered. -/
def see (s : Restored) : Interact.Event PollSig → Restored
  | ⟨.control r, w⟩ => { s with control := store s.control ⟨r, w⟩ }
  | ⟨.git r, w⟩ => { s with git := if Written.isStored w then s.git.applied r else s.git }
  | _ => s

def after (s : Restored) (h : History PollSig) : Restored := h.seen see s

variable {s t : Restored} {ok : GitRecord → Prop} {h k : History PollSig} {repo : RepoRec} {ref : String}
  {seen : Option SeenRec} {incarnation : Nat}

theorem after_append : s.after (h ++ k) = (s.after h).after k := List.foldl_append

/-- Whatever was answered, the reader is left where it was or applies a record. -/
theorem see_cases (s : Restored) (e : Interact.Event PollSig) :
    s.see e = s ∨ (∃ r ctl, s.control.apply r = .ok ctl ∧ s.see e = { s with control := ctl }) ∨
      ∃ r w git, e = ⟨.git r, w⟩ ∧ Written.isStored w = true ∧ s.git.apply r = .ok git ∧ s.see e = { s with git := git } := by
  match e with
  | ⟨.prepare, _⟩ | ⟨.lsRemote _, _⟩ | ⟨.openWriter, _⟩ | ⟨.now, _⟩ => exact .inl rfl
  | ⟨.control r, w⟩ =>
    rcases store_cases s.control ⟨r, w⟩ with same | ok
    · exact .inl (congrArg (Restored.mk s.git) same)
    · exact .inr (.inl ⟨r, _, ok, rfl⟩)
  | ⟨.git r, w⟩ =>
    by_cases stored : Written.isStored w = true
    · cases result : s.git.apply r with
      | error why =>
        left
        rw [see, if_pos stored, GitState.applied, result]
      | ok git =>
        refine .inr (.inr ⟨r, w, git, rfl, stored, result, ?_⟩)
        rw [see, if_pos stored, GitState.applied, result]
    · left
      rw [see, if_neg stored]

theorem Leads.oneRepository (leads : Leads ok s t) (one : s.git.OneRepository) : t.git.OneRepository := by
  induction leads with
  | refl => exact one
  | control _ _ ih => exact ih
  | git _ applied _ ih => exact ih.apply applied

theorem Reachable.oneRepository (reachable : Reachable s) : s.git.OneRepository :=
  Leads.oneRepository reachable fun _ _ _ _ found => by cases found

/-- What holds of the sources when no stored record is about the repository or the branch. -/
theorem holds_after (one : s.git.OneRepository) (holds : s.git.Holds repo ref seen incarnation)
    (spares : ∀ r w, ⟨.git r, w⟩ ∈ h → Written.isStored w = true → r.Spares repo.name ref) :
    (s.after h).git.OneRepository ∧ (s.after h).git.Holds repo ref seen incarnation := by
  induction h generalizing s with
  | nil => exact ⟨one, holds⟩
  | cons e h ih =>
    have rest := fun r w (mem : ⟨.git r, w⟩ ∈ h) => spares r w (List.mem_cons_of_mem _ mem)
    show ((s.see e).after h).git.OneRepository ∧ ((s.see e).after h).git.Holds repo ref seen incarnation
    rcases see_cases s e with same | ⟨_, _, _, same⟩ | ⟨r, w, git, rfl, stored, ok, same⟩
    · rw [same]
      exact ih one holds rest
    · rw [same]
      exact ih one holds rest
    · rw [same]
      exact ih (one.apply ok) (holds.apply one ok (spares r w List.mem_cons_self stored)) rest

theorem Leads.holds (leads : Leads (GitRecord.Spares repo.name ref) s t) (one : s.git.OneRepository)
    (holds : s.git.Holds repo ref seen incarnation) : t.git.Holds repo ref seen incarnation := by
  induction leads with
  | refl => exact holds
  | control _ _ ih => exact ih
  | git before applied spares ih => exact ih.apply (before.oneRepository one) applied spares

/-- No event is forgotten. -/
theorem moved_after : s.control.Moved (s.after h).control := by
  induction h generalizing s with
  | nil => exact .refl
  | cons e h ih =>
    have first : s.control.Moved (s.see e).control := by
      rcases see_cases s e with same | ⟨_, _, ok, same⟩ | ⟨_, _, _, _, _, _, same⟩
      · rw [same]; exact .refl
      · rw [same]; exact ControlState.apply_moved ok
      · rw [same]; exact .refl
    exact first.trans ih

theorem Leads.moved (leads : Leads ok s t) : s.control.Moved t.control := by
  induction leads with
  | refl => exact .refl
  | control _ applied ih => exact ih.trans (ControlState.apply_moved applied)
  | git _ _ _ ih => exact ih

end Restored

/-! ## The heads of a listing -/

theorem pollDelivery_inj {name sha sha' : String} {incarnation : Nat}
    (same : pollDelivery name incarnation sha = pollDelivery name incarnation sha') : sha = sha' := by
  unfold pollDelivery at same
  split at same <;> exact (String.append_right_inj _).mp same

/-- The poll has something to record for the branch. -/
def Unseen (repo : RepoRec) (git : GitState) (head : String × String) : Prop :=
  repo.wantsBranch head.1 ∧ previousCommit repo git head.1 ≠ some head.2

/-- The branch moved to a new tip. -/
def NewTip (repo : RepoRec) (git : GitState) (head : String × String) : Prop :=
  Unseen repo git head ∧ (previousCommit repo git head.1).isSome = true

/-- The event of the tip is one that is refused. When it arrives makes no difference. -/
def RefusedHead (repo : RepoRec) (firstPass : Bool) (s : Restored) (head : String × String) : Prop :=
  NewTip repo s.git head ∧ Refuses s.control (pollEvent repo s.git firstPass head.2 0)

/-- The observation of the head was asked for and acknowledged. -/
def Observed (repo : RepoRec) (head : String × String) (h : History PollSig) : Prop :=
  ∃ ms, ⟨.git (.seen ⟨repo.name, refName head.1, head.2, ms⟩), Written.acknowledged⟩ ∈ h

/-- What a poll may write, by what it asked before. -/
def Asks (repo : RepoRec) (firstPass : Bool) (s : Restored) (h : History PollSig) : PollOp → Prop
  | .control r => (∃ sha ms, r = .event (pollEvent repo s.git firstPass sha ms).record ∧
      (pollEvent repo s.git firstPass sha ms).check = .ok ()) ∧ ∃ ctl, (s.after h).control.apply r = .ok ctl
  | .git r => ∃ branch sha ms, r = .seen ⟨repo.name, refName branch, sha, ms⟩
  | .prepare | .lsRemote _ | .openWriter | .now => True

/-- No write failed. -/
def Stored : Interact.Event PollSig → Prop
  | ⟨.control _, w⟩ | ⟨.git _, w⟩ => w = Written.acknowledged
  | _ => True

/-- Where a poll stands that took in `done`. -/
structure TakenIn (repo : RepoRec) (firstPass : Bool) (s : Restored) (done : List (String × String))
    (ctl : ControlState) (h : History PollSig) : Prop where
  disk : (s.after h).control = ctl
  kept : ∀ app d e, s.control.event app d = some e → ctl.event app d = some e
  /-- Its own events are the others. -/
  added : ∀ d e, ctl.event repo.app d = some e → s.control.event repo.app d = some e ∨
    ∃ sha ms, e.record = (pollEvent repo s.git firstPass sha ms).record
  taken : ∀ x ∈ done, ¬ RefusedHead repo firstPass s x ∧ (Unseen repo s.git x → Observed repo x h)
  only : ∀ x, Observed repo x h → x ∈ done
  fresh : ∀ e w, ⟨.control (.event e), w⟩ ∈ h → s.control.event e.app e.delivery = none

section

variable {repo : RepoRec} {firstPass : Bool} {s : Restored} {done heads : List (String × String)} 
  {h : History PollSig} {head : String × String} {sha : String} {ms : Nat}

theorem TakenIn.start : TakenIn repo firstPass s [] s.control [] where
  disk := rfl
  kept _ _ _ found := found
  added _ _ found := .inl found
  taken _ mem := by cases mem
  only _ seen := by obtain ⟨_, mem⟩ := seen; cases mem
  fresh _ _ mem := by cases mem

/-- Whether an event of the poll is refused does not depend on what the poll queued itself. -/
theorem TakenIn.refuses (taken : TakenIn repo firstPass s done ctl h) :
    Refuses ctl (pollEvent repo s.git firstPass sha ms) ↔ Refuses s.control (pollEvent repo s.git firstPass sha 0) := by
  constructor
  · rintro (bad | ⟨old, found, other⟩)
    · exact .inl bad
    · rcases taken.added _ _ found with known | ⟨sha', ms', own⟩
      · exact .inr ⟨old, known, other⟩
      · -- An event of the poll under this delivery is of the same commit.
        have delivery := ControlState.event_delivery found
        rw [own] at other delivery
        exact absurd ⟨rfl, pollDelivery_inj delivery⟩ other
  · rintro (bad | ⟨old, found, other⟩)
    · exact .inl bad
    · exact .inr ⟨old, taken.kept _ _ _ found, other⟩

/-- Something was asked that is no observation. -/
theorem TakenIn.asked {ctl' : ControlState} {e : Interact.Event PollSig} (taken : TakenIn repo firstPass s done ctl h)
    (disk : ((s.after h).see e).control = ctl')
    (kept : ∀ app d e, ctl.event app d = some e → ctl'.event app d = some e)
    (added : ∀ d e, ctl'.event repo.app d = some e → ctl.event repo.app d = some e ∨
      ∃ sha ms, e.record = (pollEvent repo s.git firstPass sha ms).record)
    (unseen : ∀ r w, e ≠ ⟨.git r, w⟩)
    (fresh : ∀ ev w, e = ⟨.control (.event ev), w⟩ → ctl.event ev.app ev.delivery = none) :
    TakenIn repo firstPass s done ctl' (h ++ [e]) where
  disk := by rw [Restored.after_append]; exact disk
  kept app d e found := kept app d e (taken.kept app d e found)
  added d e found := (added d e found).elim (taken.added d e) .inr
  taken x mem := (taken.taken x mem).imp id fun seen unseen => by
    obtain ⟨ms, mem⟩ := seen unseen
    exact ⟨ms, List.mem_append_left _ mem⟩
  only x seen := by
    obtain ⟨ms, mem⟩ := seen
    rcases List.mem_append.mp mem with old | new
    · exact taken.only x ⟨ms, old⟩
    · exact absurd (List.mem_singleton.mp new).symm (unseen _ _)
  fresh ev w mem := by
    rcases List.mem_append.mp mem with old | new
    · exact taken.fresh ev w old
    · have free := fresh ev w (List.mem_singleton.mp new).symm
      cases found : s.control.event ev.app ev.delivery with
      | none => rfl
      | some old => cases (taken.kept _ _ _ found).symm.trans free

theorem TakenIn.now (taken : TakenIn repo firstPass s done ctl h) : TakenIn repo firstPass s done ctl (h ++ [⟨.now, ms⟩]) :=
  taken.asked taken.disk (fun _ _ _ => id) (fun _ _ => .inl) (fun _ _ same => by cases same) fun _ _ same => by cases same

/-- A new event is one that the journal accepts. -/
theorem TakenIn.accepts {ev : Incoming} (taken : TakenIn repo firstPass s done ctl h) (free : Fresh ctl ev) :
    ∃ ctl, (s.after h).control.apply (.event ev.record) = .ok ctl := by
  have free : ctl.events.find (Control.Event.hold ev.record).key = none := free
  rw [taken.disk]
  exact ⟨_, ControlState.applyEvent_ok.mpr ⟨free, rfl⟩⟩

/-- An event was stored. -/
theorem TakenIn.queued {ctl' : ControlState} (taken : TakenIn repo firstPass s done ctl h)
    (free : Fresh ctl (pollEvent repo s.git firstPass sha ms))
    (applied : ctl.apply (.event (pollEvent repo s.git firstPass sha ms).record) = .ok ctl') :
    TakenIn repo firstPass s done ctl'
      (h ++ [⟨.control (.event (pollEvent repo s.git firstPass sha ms).record), Written.acknowledged⟩]) := by
  refine taken.asked ?_ (fun app d e found => ?_) (fun d e found => ?_) (fun _ _ same => by cases same)
    fun _ _ same => by cases same; exact free
  · show Control.applied (s.after h).control _ = ctl'
    rw [Control.applied, taken.disk, applied]
  · exact ControlState.event_of_apply applied (fun decides => decides) found
  · obtain ⟨unknown, rfl⟩ := ControlState.applyEvent_ok.mp applied
    rw [ControlState.event_eq, Keyed.Table.find_push] at found
    split at found
    · cases found; exact .inr ⟨sha, ms, rfl⟩
    · exact .inl found

/-- The head was observed. -/
theorem TakenIn.observed (taken : TakenIn repo firstPass s done ctl h) (accepted : ¬ RefusedHead repo firstPass s head) :
    TakenIn repo firstPass s (done ++ [head]) ctl
      (h ++ [⟨.git (.seen ⟨repo.name, refName head.1, head.2, ms⟩), Written.acknowledged⟩]) where
  disk := by rw [Restored.after_append]; exact taken.disk
  kept := taken.kept
  added := taken.added
  taken x mem := by
    rcases List.mem_append.mp mem with old | new
    · refine (taken.taken x old).imp id fun seen unseen => ?_
      obtain ⟨ms, mem⟩ := seen unseen
      exact ⟨ms, List.mem_append_left _ mem⟩
    · cases List.mem_singleton.mp new
      exact ⟨accepted, fun _ => ⟨ms, List.mem_append_right _ List.mem_cons_self⟩⟩
  only x seen := by
    obtain ⟨ms, mem⟩ := seen
    rcases List.mem_append.mp mem with old | new
    · exact List.mem_append_left _ (taken.only x ⟨ms, old⟩)
    · have same := GitRecord.seen.inj (PollOp.git.inj (congrArg Interact.Event.op (List.mem_singleton.mp new)))
      have branch : x.1 = head.1 := (String.append_right_inj _).mp (congrArg SeenRec.refName same)
      exact List.mem_append_right _ (List.mem_singleton.mpr (Prod.ext branch (congrArg SeenRec.commit same)))
  fresh ev w mem := by
    rcases List.mem_append.mp mem with old | new
    · exact taken.fresh ev w old
    · cases List.mem_singleton.mp new

/-- There was nothing to record for the head. -/
theorem TakenIn.skipped (taken : TakenIn repo firstPass s done ctl h) (seen : ¬ Unseen repo s.git head) :
    TakenIn repo firstPass s (done ++ [head]) ctl h where
  disk := taken.disk
  kept := taken.kept
  added := taken.added
  taken x mem := by
    rcases List.mem_append.mp mem with old | new
    · exact taken.taken x old
    · cases List.mem_singleton.mp new
      exact ⟨fun refused => seen refused.1.1, fun unseen => absurd unseen seen⟩
  only x seen := List.mem_append_left _ (taken.only x seen)
  fresh := taken.fresh

/-- Step lemma: the event of one head. -/
theorem queueHead_meets (taken : TakenIn repo firstPass s done p.ctl h) (unseen : Unseen repo s.git head) :
    Meets remember (Asks repo firstPass s) (queueHead repo firstPass s.git head.1 head.2)
      (fun _ p' h' => TakenIn repo firstPass s done p'.ctl h' ∧ ¬ RefusedHead repo firstPass s head)
      (fun _ p' h' => (∀ e ∈ h', Stored e) → TakenIn repo firstPass s done p'.ctl h' ∧ RefusedHead repo firstPass s head) p h := by
  unfold queueHead
  cases was : previousCommit repo s.git head.1 with
  | none =>
    have settled : ¬ RefusedHead repo firstPass s head := fun refused => by
      have tip := refused.1.2
      rw [was] at tip
      cases tip
    exact ⟨taken, settled⟩
  | some old =>
    have tip : NewTip repo s.git head := ⟨unseen, by rw [was]; rfl⟩
    refine meets_bind.mpr (meets_perform.mpr ⟨trivial, fun ms => meets_bind.mpr (queue_meets ?_ ?_ ?_)⟩)
    · exact fun refused _ _ => ⟨taken.now, tip, taken.refuses.mp refused⟩
    · exact fun accepted _ => ⟨taken.now, fun refused => accepted (taken.refuses.mpr refused.2)⟩
    · have now : TakenIn repo firstPass s done p.ctl (h ++ [⟨.now, ms⟩]) := taken.now
      refine fun accepted free =>
        ⟨⟨⟨head.2, ms, rfl, check_of_accepted accepted⟩, now.accepts free⟩, fun ctl applied => ?_, fun e stored f complete => ?_⟩
      · exact ⟨now.queued free applied, fun refused => accepted (taken.refuses.mpr refused.2)⟩
      · cases complete _ (List.mem_append_right _ List.mem_cons_self)

/-- What holds of the heads taken in so far, when it is kept by a head with nothing to record and by one that is
queued and observed: all heads are taken in, or those before one that is refused. -/
theorem pollHeads_meets_of {I : List (String × String) → ControlState → History PollSig → Prop}
    (skipped : ∀ {done ctl h head}, I done ctl h → ¬ Unseen repo s.git head → I (done ++ [head]) ctl h)
    (queued : ∀ {done p h head}, I done p.ctl h → Unseen repo s.git head →
      Meets remember (Asks repo firstPass s) (queueHead repo firstPass s.git head.1 head.2)
        (fun _ p' h' => ∀ ms, I (done ++ [head]) p'.ctl ((h' ++ [⟨.now, ms⟩]) ++
          [⟨.git (.seen ⟨repo.name, refName head.1, head.2, ms⟩), Written.acknowledged⟩]))
        (fun _ p' h' => (∀ e ∈ h', Stored e) → I done p'.ctl h' ∧ RefusedHead repo firstPass s head) p h)
    (start : I done p.ctl h) :
    Meets remember (Asks repo firstPass s) (pollHeads repo firstPass s.git heads)
      (fun _ p' h' => I (done ++ heads) p'.ctl h')
      (fun _ p' h' => (∀ e ∈ h', Stored e) → ∃ left x right, heads = left ++ x :: right ∧
        I (done ++ left) p'.ctl h' ∧ RefusedHead repo firstPass s x) p h := by
  induction heads generalizing done p h with
  | nil => exact (List.append_nil done).symm ▸ start
  | cons x heads ih =>
    have rest : ∀ {p h}, I (done ++ [x]) p.ctl h →
        Meets remember (Asks repo firstPass s) (pollHeads repo firstPass s.git heads)
          (fun _ p' h' => I (done ++ x :: heads) p'.ctl h')
          (fun _ p' h' => (∀ e ∈ h', Stored e) → ∃ left y right, x :: heads = left ++ y :: right ∧
            I (done ++ left) p'.ctl h' ∧ RefusedHead repo firstPass s y) p h := by
      intro p h holds
      refine (ih holds).mono (fun _ p' h' holds => ?_) fun _ p' h' ends complete => ?_
      · rw [List.append_assoc] at holds
        exact holds
      · obtain ⟨left, y, right, rfl, holds, refused⟩ := ends complete
        rw [List.append_assoc] at holds
        exact ⟨x :: left, y, right, rfl, holds, refused⟩
    obtain ⟨branch, sha⟩ := x
    unfold pollHeads
    split
    next unseen =>
      have unseen : Unseen repo s.git (branch, sha) := unseen
      refine meets_bind.mpr ((queued start unseen).mono (fun n p h next => ?_) fun _ p h ends complete => ?_)
      · refine meets_bind.mpr (meets_perform.mpr ⟨trivial, fun ms => meets_bind.mpr (observe_meets ⟨branch, sha, ms, rfl⟩ ?_ ?_)⟩)
        · refine meets_bind.mpr ((rest (next ms)).mono ?_ fun _ _ _ ends => ends)
          exact fun _ _ _ holds => holds
        · exact fun e stored f complete => by cases complete _ (List.mem_append_right _ List.mem_cons_self)
      · obtain ⟨holds, refused⟩ := ends complete
        exact ⟨[], _, heads, rfl, (List.append_nil done).symm ▸ holds, refused⟩
    next seen => exact rest (skipped start seen)

/-- The head is taken in, or refused. -/
theorem takenHead_meets (taken : TakenIn repo firstPass s done p.ctl h) (unseen : Unseen repo s.git head) :
    Meets remember (Asks repo firstPass s) (queueHead repo firstPass s.git head.1 head.2)
      (fun _ p' h' => ∀ ms, TakenIn repo firstPass s (done ++ [head]) p'.ctl ((h' ++ [⟨.now, ms⟩]) ++
        [⟨.git (.seen ⟨repo.name, refName head.1, head.2, ms⟩), Written.acknowledged⟩]))
      (fun _ p' h' => (∀ e ∈ h', Stored e) → TakenIn repo firstPass s done p'.ctl h' ∧ RefusedHead repo firstPass s head) p h :=
  (queueHead_meets taken unseen).mono (fun _ _ _ ⟨taken, accepted⟩ _ => taken.now.observed accepted) fun _ _ _ ends => ends

end

/-! ## A pass -/

/-- What a pass asks before the first head. -/
def opening (repo : RepoRec) (refs : List RemoteRef) (s : Restored) : History PollSig :=
  [⟨.prepare, Except.ok ()⟩, ⟨.lsRemote repo.url, Except.ok refs⟩, ⟨.openWriter, Except.ok s⟩]

/-- A pass writes only when the registration it started with is the one that it found. -/
def PassAsks (repo : RepoRec) (firstPass : Bool) (h : History PollSig) : PollOp → Prop
  | .control r => ∃ refs s k, h = opening repo refs s ++ k ∧ s.git.repos.find repo.name = some repo ∧
      Asks repo firstPass s k (.control r)
  | .git r => ∃ refs s k, h = opening repo refs s ++ k ∧ s.git.repos.find repo.name = some repo ∧
      Asks repo firstPass s k (.git r)
  | .prepare | .lsRemote _ | .openWriter | .now => True

/-- The answer when nothing goes wrong. -/
def Answered (refs : List RemoteRef) (s : Restored) : Interact.Event PollSig → Prop
  | ⟨.prepare, a⟩ => a = Except.ok ()
  | ⟨.lsRemote _, a⟩ => a = Except.ok refs
  | ⟨.openWriter, a⟩ => a = Except.ok s
  | ⟨.now, _⟩ => True
  | ⟨.control _, w⟩ | ⟨.git _, w⟩ => w = Written.acknowledged

/-- What a pass that went well leaves, of what it read. -/
def PassLeaves (repo : RepoRec) (Q : List RemoteRef → Restored → ControlState → History PollSig → Prop)
    (h : History PollSig) : Prop :=
  ∀ refs s, (∀ e ∈ h, Answered refs s e) → s.git.repos.find repo.name = some repo →
    ∃ k ctl, h = opening repo refs s ++ k ∧ Q refs s ctl k

/-- How a pass ends when nothing goes wrong: it took in every head, or those before one that is refused. -/
def PassEnds (repo : RepoRec) (firstPass : Bool) (h : History PollSig) : Prop :=
  ∀ refs s, (∀ e ∈ h, Answered refs s e) → s.git.repos.find repo.name = some repo →
    ∃ k left right ctl, h = opening repo refs s ++ k ∧ branchHeads refs = left ++ right ∧
      TakenIn repo firstPass s left ctl k ∧ ∀ x, right.head? = some x → RefusedHead repo firstPass s x

section

variable {repo : RepoRec} {firstPass : Bool} {refs : List RemoteRef} {s : Restored} {h k : History PollSig}
  {out : List String} {Q : List RemoteRef → Restored → ControlState → History PollSig → Prop}

theorem stored_of_answered {e : Interact.Event PollSig} (answered : Answered refs s e) : Stored e := by
  match e with
  | ⟨.control _, _⟩ | ⟨.git _, _⟩ => exact answered
  | ⟨.prepare, _⟩ | ⟨.lsRemote _, _⟩ | ⟨.openWriter, _⟩ | ⟨.now, _⟩ => exact trivial

/-- A pass that went well opened the journal as it is now. -/
theorem opening_of_answered {refs' : List RemoteRef} {s' : Restored}
    (answered : ∀ e ∈ opening repo refs s ++ k, Answered refs' s' e) : refs = refs' ∧ s = s' :=
  ⟨Except.ok.inj (answered ⟨.lsRemote repo.url, Except.ok refs⟩ (by simp [opening])),
    Except.ok.inj (answered ⟨.openWriter, Except.ok s⟩ (by simp [opening]))⟩

/-- What a pass writes, it writes after that. -/
theorem mem_of_mem_opening {e : Interact.Event PollSig} (mem : e ∈ opening repo refs s ++ k) :
    e.op = .prepare ∨ e.op = .lsRemote repo.url ∨ e.op = .openWriter ∨ e ∈ k := by
  rcases List.mem_append.mp mem with opens | mem
  · simp only [opening, List.mem_cons, List.not_mem_nil, or_false] at opens
    rcases opens with rfl | rfl | rfl
    · exact .inl rfl
    · exact .inr (.inl rfl)
    · exact .inr (.inr (.inl rfl))
  · exact .inr (.inr (.inr mem))

/-- What the heads of every listing leave, a pass leaves. -/
theorem pollRepo_meets_of (heads : ∀ refs (s : Restored) out, Meets remember (Asks repo firstPass s)
      (pollHeads repo firstPass s.git (branchHeads refs)) (fun _ p k => (∀ e ∈ k, Stored e) → Q refs s p.ctl k)
      (fun _ p k => (∀ e ∈ k, Stored e) → Q refs s p.ctl k) ⟨s.control, out⟩ []) :
    Meets remember (PassAsks repo firstPass) (pollRepo repo firstPass)
      (fun _ _ h => PassLeaves repo Q h) (fun _ _ h => PassLeaves repo Q h) out [] := by
  have sim : ∀ refs (s : Restored), s.git.repos.find repo.name = some repo →
      Simulates remember (Asks repo firstPass s) remember (PassAsks repo firstPass) fun k h => h = opening repo refs s ++ k := by
    intro refs s registered
    refine ⟨?_, ?_⟩
    · rintro k _ op rfl asks
      cases op with
      | control r | git r => exact ⟨refs, s, k, rfl, registered, asks⟩
      | prepare | lsRemote url | openWriter | now => exact trivial
    · rintro k _ e rfl _
      exact List.append_assoc _ _ _
  -- A pass that found another registration took in nothing.
  have other : ∀ refs s, s.git.repos.find repo.name ≠ some repo → PassLeaves repo Q (opening repo refs s) := by
    intro refs s other refs' s' answered registered
    obtain ⟨_, rfl⟩ := opening_of_answered (k := []) answered
    exact absurd registered other
  have leaves : ∀ refs (s : Restored) ctl k, ((∀ e ∈ k, Stored e) → Q refs s ctl k) →
      PassLeaves repo Q (opening repo refs s ++ k) := by
    intro refs s ctl k ends refs' s' answered _
    obtain ⟨rfl, rfl⟩ := opening_of_answered answered
    exact ⟨k, ctl, rfl, ends fun e mem => stored_of_answered (answered e (List.mem_append_right _ mem))⟩
  refine meets_bind.mpr (meets_perform.mpr ⟨trivial, fun prepared => ?_⟩)
  cases prepared with
  | error f => exact fun _ _ answered _ => by cases answered _ List.mem_cons_self
  | ok _ =>
    refine meets_bind.mpr (meets_pure.mpr (meets_bind.mpr (meets_perform.mpr ⟨trivial, fun listed => ?_⟩)))
    cases listed with
    | error why => exact fun _ _ answered _ => by cases answered _ (List.mem_append_right _ List.mem_cons_self)
    | ok refs =>
      refine meets_bind.mpr (meets_pure.mpr (meets_bind.mpr (meets_perform.mpr ⟨trivial, fun restored => ?_⟩)))
      cases restored with
      | error f => exact fun _ _ answered _ => by cases answered _ (List.mem_append_right _ List.mem_cons_self)
      | ok s =>
        refine meets_bind.mpr (meets_pure.mpr ?_)
        show Meets remember (PassAsks repo firstPass) _ _ _ out (opening repo refs s)
        cases found : s.git.repos.find repo.name with
        | none => exact other refs s fun same => by cases found.symm.trans same
        | some now =>
          dsimp only
          split
          next same =>
            rw [same] at found
            refine meets_zoom.mpr (((heads refs s out).simulate (sim refs s found) (List.append_nil _).symm).mono ?_ ?_)
            · rintro n p _ ⟨k, rfl, ends⟩
              exact leaves refs s p.ctl k ends
            · rintro f p _ ⟨k, rfl, ends⟩
              exact leaves refs s p.ctl k ends
          next differs => exact other refs s fun same => differs (Option.some.inj (found.symm.trans same))

theorem pollRepo_meets : Meets remember (PassAsks repo firstPass) (pollRepo repo firstPass)
    (fun _ _ h => PassEnds repo firstPass h) (fun _ _ h => PassEnds repo firstPass h) out [] := by
  have ends : ∀ h, PassLeaves repo (fun refs s ctl k => ∃ left right, branchHeads refs = left ++ right ∧
      TakenIn repo firstPass s left ctl k ∧ ∀ x, right.head? = some x → RefusedHead repo firstPass s x) h →
      PassEnds repo firstPass h := by
    intro h leaves refs s answered registered
    obtain ⟨k, ctl, rfl, left, right, split, taken, stops⟩ := leaves refs s answered registered
    exact ⟨k, left, right, ctl, rfl, split, taken, stops⟩
  refine (pollRepo_meets_of fun refs s out => ?_).mono (fun _ _ h => ends h) fun _ _ h => ends h
  refine (pollHeads_meets_of (I := TakenIn repo firstPass s) TakenIn.skipped takenHead_meets .start).mono (fun _ p k taken _ => ?_) fun _ p k ends complete => ?_
  · exact ⟨_, [], (List.append_nil _).symm, taken, fun x no => by cases no⟩
  · obtain ⟨left, x, right, split, taken, refused⟩ := ends complete
    exact ⟨left, x :: right, split, taken, fun y first => by cases first; exact refused⟩

end

/-! ## A pass again -/

/-- What is read is what the journal holds. -/
def ReadsOf (s : Restored) : Interact.Event PollSig → Prop
  | ⟨.openWriter, .ok s'⟩ => s' = s
  | _ => True

/-- A pass that queued the event of a new tip, and stopped before it recorded that it saw the tip. -/
structure Interrupted (repo : RepoRec) (firstPass : Bool) (s : Restored) (head : String × String)
    (h : History PollSig) : Prop where
  asked : ∃ out q, Program.Follows ((pollRepo repo firstPass).toProgram out) h q
  reads : ∀ e ∈ h, ReadsOf s e
  tip : NewTip repo s.git head
  queued : ∃ ms w, ⟨.control (.event (pollEvent repo s.git firstPass head.2 ms).record), w⟩ ∈ h ∧
    Written.isStored w = true
  unseen : ∀ x w, ⟨.git (.seen x), w⟩ ∈ h → x.key = (repo.name, refName head.1) → Written.isStored w = false

/-- A pass in which nothing went wrong. -/
structure Polled (repo : RepoRec) (firstPass : Bool) (s : Restored) (refs : List RemoteRef) (h : History PollSig) :
    Prop where
  asked : ∃ out result, Program.Follows ((pollRepo repo firstPass).toProgram out) h (.done result)
  answered : ∀ e ∈ h, Answered refs s e

/-- The pass finds that the event of the tip is queued already, and records that it saw the tip. -/
structure Repeats (repo : RepoRec) (firstPass : Bool) (s : Restored) (head : String × String) (h : History PollSig) :
    Prop where
  duplicate : ∀ ms, (queueEvent (pollEvent repo s.git firstPass head.2 ms)).toProgram s.control =
    .done (.ok .duplicate, s.control)
  nothingNew : ∀ e w, ⟨.control (.event e), w⟩ ∈ h → e.app = repo.app →
    e.delivery ≠ pollDelivery repo.name (s.git.incarnation repo.app) head.2
  seen : Observed repo head h

section

variable {repo : RepoRec} {firstPass again : Bool} {refs : List RemoteRef} {s s' : Restored} {h k : History PollSig}
  {head : String × String} {before rest : List (String × String)} {ev : Incoming} {ctl : ControlState}

theorem event_of_queued {x : EventRec} {ctl' : ControlState} (applied : ctl.apply (.event x) = .ok ctl') :
    ctl'.event x.app x.delivery = some (.hold x) := by
  obtain ⟨free, rfl⟩ := ControlState.applyEvent_ok.mp applied
  rw [ControlState.event_eq, Keyed.Table.find_push]
  exact if_pos rfl

theorem queueEvent_duplicate (accepted : ¬ Refuses ctl ev) (known : ¬ Fresh ctl ev) :
    (queueEvent ev).toProgram ctl = .done (.ok .duplicate, ctl) := by
  have checked := check_of_accepted accepted
  cases found : ctl.event ev.app ev.deliveryId with
  | none => exact absurd found known
  | some old =>
    have same : old.record.source = ev.source ∧ old.record.revision = ev.revision :=
      Decidable.byContradiction fun other => accepted (.inr ⟨old, found, other⟩)
    have asks : (refuse .invalid (.ok ()) : Writing Unit).toProgram ctl = .done (.ok (), ctl) := rfl
    have reads : (get : Writing ControlState).toProgram ctl = .done (.ok ctl, ctl) := rfl
    unfold queueEvent
    rw [toProgram_bind, checked, asks]
    simp only [Program.done_bind, toProgram_bind, reads, found, if_pos same]
    rfl

/-- The tip is new as long as the registration and the observation are the same. -/
theorem NewTip.of_holds {seen : Option SeenRec} {incarnation : Nat} (tip : NewTip repo s.git head)
    (holds : s.git.Holds repo (refName head.1) seen incarnation)
    (holds' : s'.git.Holds repo (refName head.1) seen incarnation) : NewTip repo s'.git head := by
  have same : previousCommit repo s'.git head.1 = previousCommit repo s.git head.1 := by
    unfold previousCommit
    rw [holds.seen, holds'.seen]
  unfold NewTip Unseen
  rw [same]
  exact tip

/-- A pass asks what it may, at each point of its history. -/
theorem passAsks_of_follows {out : List String} {e : Interact.Event PollSig} {q : Program PollSig (Except Fail Nat × List String)}
    (follows : Program.Follows ((pollRepo repo firstPass).toProgram out) (h ++ e :: k) q) :
    PassAsks repo firstPass h e.op := by
  have allowed := Lawful.at (Program.Obeys.follows pollRepo_meets follows).2
  rwa [seen_remember] at allowed

/-- A write of an event, by a pass that read what the journal holds. -/
theorem event_of_passAsks {r : ControlRecord} (asks : PassAsks repo firstPass h (.control r)) (reads : ∀ e ∈ h, ReadsOf s e) :
    s.git.repos.find repo.name = some repo ∧
      (∃ sha ms, r = .event (pollEvent repo s.git firstPass sha ms).record ∧
        (pollEvent repo s.git firstPass sha ms).check = .ok ()) ∧
      ∃ ctl, (s.after h).control.apply r = .ok ctl := by
  obtain ⟨refs, t, k, rfl, registered, event, ctl, applied⟩ := asks
  have here : t = s := reads ⟨.openWriter, Except.ok t⟩ (by simp [opening])
  subst here
  refine ⟨registered, event, ctl, ?_⟩
  rw [Restored.after_append]
  exact applied

/-- What a pass that was interrupted left of the sources. -/
theorem Interrupted.sources (interrupted : Interrupted repo firstPass s head h) (reachable : s.Reachable) :
    s.git.repos.find repo.name = some repo ∧ (s.after h).git.OneRepository ∧ (s.after h).git.Holds repo (refName head.1)
      (s.git.seen.find (repo.name, refName head.1)) (s.git.incarnation repo.app) := by
  obtain ⟨out, q, follows⟩ := interrupted.asked
  obtain ⟨ms, w, mem, _⟩ := interrupted.queued
  obtain ⟨h₁, h₂, split⟩ := List.append_of_mem mem
  have registered := (event_of_passAsks (passAsks_of_follows (split ▸ follows)) fun e mem =>
    interrupted.reads e (split ▸ List.mem_append_left _ mem)).1
  refine ⟨registered, Restored.holds_after reachable.oneRepository ⟨registered, rfl, rfl⟩ fun r w mem stored => ?_⟩
  obtain ⟨h₁, h₂, split⟩ := List.append_of_mem mem
  obtain ⟨_, _, _, _, _, branch, sha, ms, rfl⟩ := passAsks_of_follows (split ▸ follows)
  intro same
  cases stored.symm.trans (interrupted.unseen _ w mem same)

/-- What a pass that was interrupted left of the event. -/
theorem Interrupted.event (interrupted : Interrupted repo firstPass s head h) :
    ∃ ms e, (pollEvent repo s.git firstPass head.2 ms).check = .ok () ∧
      e.record = (pollEvent repo s.git firstPass head.2 ms).record ∧
      (s.after h).control.event repo.app (pollDelivery repo.name (s.git.incarnation repo.app) head.2) = some e := by
  obtain ⟨out, q, follows⟩ := interrupted.asked
  obtain ⟨ms, w, mem, stored⟩ := interrupted.queued
  obtain ⟨h₁, h₂, split⟩ := List.append_of_mem mem
  obtain ⟨_, ⟨sha, ms', same, checked⟩, ctl, applied⟩ :=
    event_of_passAsks (passAsks_of_follows (split ▸ follows)) fun e mem =>
      interrupted.reads e (split ▸ List.mem_append_left _ mem)
  have same := ControlRecord.event.inj same
  cases pollDelivery_inj (congrArg EventRec.delivery same)
  -- The event was stored, and no later record forgets it.
  have queued : ((s.after h₁).see ⟨.control (.event (pollEvent repo s.git firstPass head.2 ms).record), w⟩).control = ctl := by
    show store (s.after h₁).control ⟨_, w⟩ = ctl
    rw [store, if_pos stored, Control.applied, applied]
  have moved : ctl.Moved (s.after h).control := by
    rw [split, Restored.after_append, ← queued]
    exact Restored.moved_after
  obtain ⟨e, found, record, _⟩ := moved _ _ (event_of_queued applied)
  exact ⟨ms, e, checked, record, found⟩

/-- The event of the tip is refused by a pass of the other kind, and by no pass of the same kind. -/
theorem refusedHead_iff {e : Control.Event} {ms : Nat} (tip : NewTip repo s.git head)
    (checked : (pollEvent repo s.git firstPass head.2 ms).check = .ok ())
    (record : e.record = (pollEvent repo s.git firstPass head.2 ms).record)
    (found : s.control.event repo.app (pollDelivery repo.name (s.git.incarnation repo.app) head.2) = some e) :
    RefusedHead repo again s head ↔ again ≠ firstPass := by
  constructor
  · rintro ⟨_, bad | ⟨old, found', other⟩⟩ rfl
    · exact bad checked
    · cases found.symm.trans found'
      rw [record] at other
      exact other ⟨rfl, rfl⟩
  · intro differ
    refine ⟨tip, .inr ⟨e, found, fun same => differ ?_⟩⟩
    have source : pollSource firstPass = pollSource again := by
      rw [record] at same
      exact same.1
    revert source
    cases firstPass <;> cases again <;> simp [pollSource]

end

section

variable {repo : RepoRec} {firstPass again : Bool} {refs : List RemoteRef} {s s' : Restored} {h k : History PollSig}
  {head : String × String} {before rest : List (String × String)}

/-- The pass after one that was interrupted repeats it exactly when both are first passes or neither is, and no
head that is listed earlier is refused. -/
theorem polled_again (reachable : s.Reachable) (interrupted : Interrupted repo firstPass s head h)
    (meanwhile : Restored.Leads (GitRecord.Spares repo.name (refName head.1)) (s.after h) s')
    (polled : Polled repo again s' refs k) (lists : branchHeads refs = before ++ head :: rest)
    (earliest : head ∉ before) :
    Repeats repo again s' head k ↔ again = firstPass ∧ ∀ x ∈ before, ¬ RefusedHead repo again s' x := by
  obtain ⟨registered, one, left⟩ := interrupted.sources reachable
  have holds := meanwhile.holds one left
  have tip : NewTip repo s'.git head := interrupted.tip.of_holds ⟨registered, rfl, rfl⟩ holds
  obtain ⟨ms, e₀, checked, record₀, found₀⟩ := interrupted.event
  obtain ⟨e, found, record, _⟩ := meanwhile.moved _ _ found₀
  -- The event is the one that the pass would have queued now, but for the source.
  have same : ∀ firstPass sha ms, pollEvent repo s.git firstPass sha ms = pollEvent repo s'.git firstPass sha ms := by
    intro firstPass sha ms
    rw [pollEvent, pollEvent, holds.incarnation]
  rw [same] at checked record₀
  rw [← holds.incarnation] at found
  have refused : RefusedHead repo again s' head ↔ again ≠ firstPass :=
    refusedHead_iff tip checked (record.trans record₀) found
  obtain ⟨out, result, follows⟩ := polled.asked
  have ends : PassEnds repo again k := by
    have ended := Program.Obeys.ended pollRepo_meets follows
    rw [seen_remember] at ended
    obtain ⟨_ | _, _⟩ := result <;> exact ended
  obtain ⟨k', done, remaining, ctl, rfl, split, taken, stops⟩ := ends refs s' polled.answered holds.registered
  rw [lists] at split
  constructor
  · intro repeats
    obtain ⟨ms, seen⟩ := repeats.seen
    have seen : Observed repo head k' := by
      rcases mem_of_mem_opening seen with no | no | no | mem
      · cases no
      · cases no
      · cases no
      · exact ⟨ms, mem⟩
    have mem := taken.only head seen
    have past : ∀ x ∈ before, x ∈ done := by
      rcases List.append_eq_append_iff.mp split with ⟨more, rfl, _⟩ | ⟨more, rfl, _⟩
      · exact fun x mem => List.mem_append_left _ mem
      · exact absurd (List.mem_append_left _ mem) earliest
    refine ⟨Decidable.byContradiction fun differ => (taken.taken head mem).1 (refused.mpr differ), ?_⟩
    exact fun x mem => (taken.taken x (past x mem)).1
  · rintro ⟨kind, accepted⟩
    have tipAccepted : ¬ RefusedHead repo again s' head := fun no => refused.mp no kind
    -- The pass did not stop before the tip, nor at it.
    have mem : head ∈ done := by
      rcases List.append_eq_append_iff.mp split with ⟨more, rfl, later⟩ | ⟨more, rfl, earlier⟩
      · cases more with
        | nil =>
          have next : head :: rest = remaining := later
          exact absurd (stops head (by rw [← next]; rfl)) tipAccepted
        | cons x more =>
          cases later
          exact List.mem_append_right _ List.mem_cons_self
      · cases more with
        | nil => exact absurd (stops head (by rw [earlier]; rfl)) tipAccepted
        | cons x more =>
          exact absurd (stops x (by rw [earlier]; rfl)) (accepted x (List.mem_append_right _ List.mem_cons_self))
    refine ⟨fun ms => queueEvent_duplicate ?_ ?_, fun x w asked app delivery => ?_, ?_⟩
    · have start : TakenIn repo again s' [] s'.control [] := .start
      exact fun no => tipAccepted ⟨tip, start.refuses.mp no⟩
    · exact fun free => by cases found.symm.trans free
    · rcases mem_of_mem_opening asked with no | no | no | mem
      · cases no
      · cases no
      · cases no
      · have fresh := taken.fresh x w mem
        rw [app, delivery] at fresh
        cases found.symm.trans fresh
    · obtain ⟨ms, seen⟩ := (taken.taken head mem).2 tip.1
      exact ⟨ms, List.mem_append_right _ seen⟩

end

/-! ### A commit that is queued twice -/

namespace Twice

def app : ApplicationId := ⟨1#128⟩

def repo : RepoRec where
  name := "shop"
  url := "https://example.com/acme/shop.git"
  username := none
  cred := .none
  knownHost := none
  webhook := none
  app := app
  project := none
  environment := none
  branch := "main"
  filters := []
  containerPort := 8080
  dockerfile := none
  context := none
  target := none
  healthPath := none
  atMs := 5

def old : String := "aaaaaaaaaaaaaaaaaaaaaaaaaaaaaaaaaaaaaaaa"

def tip : String := "bbbbbbbbbbbbbbbbbbbbbbbbbbbbbbbbbbbbbbbb"

def refs : List RemoteRef := [⟨"refs/heads/main", tip⟩]

def baseline : SeenRec := ⟨"shop", "refs/heads/main", old, 6⟩

/-- The repository is registered and was polled once. -/
def start : Restored := ⟨(GitState.new.applied (.repo repo)).applied (.seen baseline), .new⟩

theorem applied_ok {s : GitState} {r : GitRecord} (accepted : (s.apply r).isOk = true) : s.apply r = .ok (s.applied r) := by
  unfold GitState.applied
  cases result : s.apply r with
  | ok s' => rfl
  | error why => rw [result] at accepted; cases accepted

theorem start_reachable : start.Reachable := by
  have registered := applied_ok (s := .new) (r := .repo repo) (by decide)
  have seen := applied_ok (s := GitState.new.applied (.repo repo)) (r := .seen baseline) (by decide)
  exact (Restored.Leads.refl.git registered trivial).git seen trivial

def answers (restored : Restored) : (op : PollOp) → op.Answer
  | .prepare => Except.ok ()
  | .lsRemote _ => Except.ok refs
  | .openWriter => Except.ok restored
  | .now => (7 : Nat)
  | .control _ | .git _ => Written.acknowledged

def pass (firstPass : Bool) (restored : Restored) : History PollSig × Except Fail Nat × List String :=
  ((pollRepo repo firstPass).toProgram []).play (S := PollSig) (answers restored)

def event (firstPass : Bool) : ControlRecord := .event (pollEvent repo start.git firstPass tip 7).record

def seen : GitRecord := .seen ⟨"shop", "refs/heads/main", tip, 7⟩

/-- A pass that finds the tip, up to its event. -/
def queues (firstPass : Bool) : List PollOp :=
  [.prepare, .lsRemote repo.url, .openWriter, .now, .control (event firstPass)]

theorem asked_first : ∀ firstPass, ((pass firstPass start).1.map Interact.Event.op).take 5 = queues firstPass := by
  decide

/-- What the pass left when it stopped there. -/
def left (firstPass : Bool) : Restored :=
  start.after ((queues firstPass).map fun op => ⟨op, answers start op⟩)

theorem asked_same : (pass true (left true)).1.map Interact.Event.op =
    [.prepare, .lsRemote repo.url, .openWriter, .now, .now, .git seen] := by decide

theorem asked_other : (pass true (left false)).1.map Interact.Event.op =
    [.prepare, .lsRemote repo.url, .openWriter, .now] := by decide

theorem op_of_mem {restored : Restored} {ops : List PollOp} {e : Interact.Event PollSig}
    (mem : e ∈ ops.map fun op => (⟨op, answers restored op⟩ : Interact.Event PollSig)) : e.op ∈ ops := by
  obtain ⟨op, asked, rfl⟩ := List.mem_map.mp mem
  exact asked

theorem interrupted (firstPass : Bool) : Interrupted repo firstPass start ("main", tip)
    ((queues firstPass).map fun op => ⟨op, answers start op⟩) where
  asked := by
    obtain ⟨q, follows⟩ := (Program.play_follows (S := PollSig) (answers start) ((pollRepo repo firstPass).toProgram [])).take 5
    rw [Program.play_history, ← List.map_take] at follows
    have asked : List.take 5 ((((pollRepo repo firstPass).toProgram []).play (S := PollSig) (answers start)).1.map
      Interact.Event.op) = queues firstPass := asked_first firstPass
    rw [asked] at follows
    exact ⟨[], q, follows⟩
  reads := by
    intro e mem
    simp only [queues, List.map_cons, List.map_nil, List.mem_cons, List.not_mem_nil, or_false] at mem
    rcases mem with rfl | rfl | rfl | rfl | rfl
    · exact trivial
    · exact trivial
    · exact rfl
    · exact trivial
    · exact trivial
  tip := by unfold NewTip Unseen; decide
  queued := ⟨7, .acknowledged, by simp [queues, event, answers], rfl⟩
  unseen := by
    intro x w mem _
    have asked := op_of_mem mem
    simp [queues] at asked

/-- The pass after it. -/
theorem polled {firstPass : Bool} {ops : List PollOp}
    (asked : (pass true (left firstPass)).1.map Interact.Event.op = ops) :
    Polled repo true (left firstPass) refs (ops.map fun op => ⟨op, answers (left firstPass) op⟩) where
  asked := ⟨[], _, Program.play_asked asked⟩
  answered := by
    intro e mem
    obtain ⟨op, _, rfl⟩ := List.mem_map.mp mem
    cases op <;> first | exact rfl | exact trivial

theorem heads : branchHeads refs = [] ++ ("main", tip) :: [] := by decide

end Twice

theorem polled_again_repeats : ∃ k, Polled Twice.repo true (Twice.left true) Twice.refs k ∧
    Repeats Twice.repo true (Twice.left true) ("main", Twice.tip) k :=
  ⟨_, Twice.polled Twice.asked_same,
    (polled_again Twice.start_reachable (Twice.interrupted true) .refl (Twice.polled Twice.asked_same) Twice.heads
      (by simp)).mpr ⟨rfl, fun _ mem => by cases mem⟩⟩

/-- The first pass of a new process refuses the event that a later pass of the last one queued. -/
theorem poll_refuses_own_event : ∃ s h s' k, s.Reachable ∧ Interrupted Twice.repo false s ("main", Twice.tip) h ∧
    Restored.Leads (GitRecord.Spares "shop" (refName "main")) (s.after h) s' ∧ Polled Twice.repo true s' Twice.refs k ∧
    branchHeads Twice.refs = [("main", Twice.tip)] ∧ ¬ Repeats Twice.repo true s' ("main", Twice.tip) k := by
  refine ⟨_, _, _, _, Twice.start_reachable, Twice.interrupted false, .refl, Twice.polled Twice.asked_other, Twice.heads, ?_⟩
  intro repeats
  obtain ⟨ms, mem⟩ := repeats.seen
  have asked := Twice.op_of_mem mem
  simp at asked

end Harpoon.Git
