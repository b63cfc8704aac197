import Harpoon.Git.Watch
import Harpoon.Laws.Poll

/-!
# No accepted push is lost while watch runs

A push that was answered is in the channel, in the order of the answers, or watch took it; and what watch took it
accounted for: the event is recorded, or a line says that it was refused or is of a branch that is not watched.
The loop goes on from the channel only when the channel is empty.

This is so until watch ends. The channel is in memory, so a signal that kills the process takes what is in it; and
nothing is established here of a push that watch ends with, of one whose registration was removed, or of one that
is answered when the loop has made its last pass.
-/

namespace Harpoon.Git.Watch

open Deploy Control Interact Process

/-! ## One push -/

/-- What becomes of a push that is taken in: its event is recorded, now or before, or a line says why it is not. -/
inductive Settled (ctl : ControlState) (out : List String) (repo : RepoRec) (inb : Inbound) : Prop where
  | recorded {e : Control.Event} (found : ctl.event repo.app inb.event.delivery = some e)
      (same : e.record.source = inb.event.source ∧ e.record.revision = inb.event.revision)
  | refused {e : ControlError} (line : refusedLine inb e ∈ out)
  | notBranch (other : inb.event.branch = none) (line : notBranchLine inb ∈ out)
  | notWanted {branch : String} (other : inb.event.branch = some branch) (unwanted : repo.wantsBranch branch = false)
      (line : notWantedLine repo inb branch ∈ out)

/-- Later records and lines change nothing of it. -/
theorem Settled.mono {ctl ctl' : ControlState} {out out' : List String} {repo : RepoRec} {inb : Inbound}
    (settled : Settled ctl out repo inb) (moved : ctl.Moved ctl') (printed : out ⊆ out') :
    Settled ctl' out' repo inb := by
  cases settled with
  | recorded found same =>
    obtain ⟨e', found', record, _⟩ := moved _ _ found
    exact .recorded found' (record ▸ same)
  | refused line => exact .refused (printed line)
  | notBranch other line => exact .notBranch other (printed line)
  | notWanted other unwanted line => exact .notWanted other unwanted (printed line)

section

variable {s : Restored} {h : History PollSig} {ctl : ControlState} {repo : RepoRec} {inb : Inbound} {out : List String}

/-- Where a push stands that was offered to the queue. -/
def Offered (s : Restored) (repo : RepoRec) (inb : Inbound) (out out' : List String) (h : History PollSig) : Prop :=
  out ⊆ out' ∧ Settled (s.after h).control out' repo inb

theorem offered_line {line : String} (settled : Settled (s.after h).control (out ++ [line]) repo inb) :
    Offered s repo inb out (out ++ [line]) h :=
  ⟨List.subset_append_left _ _, settled⟩

theorem queuePush_meets (disk : (s.after h).control = ctl) :
    Meets remember (fun _ _ => True) (queuePush repo ctl inb)
      (fun _ out' h' => h <+: h' ∧ Offered s repo inb out out' h') (fun _ _ _ => False) out h := by
  refine meets_bind.mpr (meets_perform.mpr ⟨trivial, fun ms => meets_bind.mpr (meets_zoom.mpr (meets_attempt.mpr ?_))⟩)
  have waited : (s.after (h ++ [⟨.now, ms⟩])).control = ctl := by
    rw [Restored.after_append]
    exact disk
  have inner : Meets
      (fun h (w : Interact.Event ControlSig) => remember h (⟨.control w.op, w.answer⟩ : Interact.Event PollSig))
      (fun _ _ => True) (queueEvent (pushEvent repo inb ms))
      (fun i _ h' => h <+: h' ∧ Offered s repo inb out (out ++ [queueLine repo inb (.ok i)]) h')
      (fun e _ h' => h <+: h' ∧ Offered s repo inb out (out ++ [queueLine repo inb (.error e)]) h')
      ctl (h ++ [⟨.now, ms⟩]) := by
    refine queueEvent_meets (fun _ e => ?_) (fun accepted known => ?_) fun accepted fresh =>
      ⟨trivial, fun ctl' applied => ?_, fun e stored => ?_⟩
    · exact ⟨List.prefix_append _ _, offered_line (.refused (List.mem_append_right _ List.mem_cons_self))⟩
    · refine ⟨List.prefix_append _ _, offered_line ?_⟩
      cases found : ctl.event repo.app inb.event.delivery with
      | none => exact absurd found known
      | some old =>
        have same : old.record.source = inb.event.source ∧ old.record.revision = inb.event.revision :=
          Decidable.byContradiction fun other => accepted (.inr ⟨old, found, other⟩)
        rw [waited]
        exact .recorded found same
    · refine ⟨List.prefix_append_of_prefix (List.prefix_append _ _), offered_line ?_⟩
      have after : (s.after (remember (h ++ [⟨.now, ms⟩])
          ⟨.control (.event (pushEvent repo inb ms).record), Written.acknowledged⟩)).control = ctl' := by
        rw [remember, Restored.after_append]
        show store (s.after (h ++ [⟨.now, ms⟩])).control ⟨.event (pushEvent repo inb ms).record, .acknowledged⟩ = ctl'
        rw [waited, store]
        show Control.applied ctl _ = ctl'
        rw [Control.applied, applied]
      rw [after]
      exact .recorded (event_of_queued applied) ⟨rfl, rfl⟩
    · refine ⟨List.prefix_append_of_prefix (List.prefix_append _ _), offered_line ?_⟩
      exact .refused (List.mem_append_right _ List.mem_cons_self)
  refine Meets.mono (Meets.via ?_ inner) (fun _ _ _ => id) fun _ _ _ => id
  exact fun r s allowed => ⟨trivial, fun _ => rfl⟩

/-- The journal was opened for the push, and held this. -/
def Opened (s : Restored) (h : History PollSig) : Prop := (⟨.openWriter, .ok s⟩ : Interact.Event PollSig) ∈ h

theorem acceptWebhook_meets : Meets remember (fun _ _ => True) (acceptWebhook inb)
    (fun _ out' h => out ⊆ out' ∧ ∃ s, Opened s h ∧ ∀ repo, s.git.repos.find inb.repo = some repo →
      Settled (s.after h).control out' repo inb)
    (fun f out' h => out' = out ∧ h = [⟨.openWriter, .error f⟩]) out [] := by
  refine meets_bind.mpr (meets_perform.mpr ⟨trivial, fun opened => meets_bind.mpr ?_⟩)
  refine meets_ofExcept (fun s ok => ?_) fun f failed => ?_
  · subst ok
    have held : Opened s [⟨.openWriter, .ok s⟩] := List.mem_singleton_self _
    have disk : (s.after [⟨.openWriter, .ok s⟩]).control = s.control := rfl
    cases found : s.git.repos.find inb.repo with
    | none => exact ⟨List.Subset.refl _, s, held, fun repo found' => by cases found.symm.trans found'⟩
    | some repo =>
      have one : ∀ {out' : List String} {h : History PollSig}, Opened s h → Offered s repo inb out out' h →
          out ⊆ out' ∧ ∃ s, Opened s h ∧ ∀ repo, s.git.repos.find inb.repo = some repo →
            Settled (s.after h).control out' repo inb :=
        fun held offered => ⟨offered.1, s, held, fun repo' found' => by cases found.symm.trans found'; exact offered.2⟩
      dsimp only
      cases branch : inb.event.branch with
      | none => exact meets_modify.mpr (one held (offered_line (.notBranch branch (by simp))))
      | some name =>
        dsimp only
        split
        · refine (queuePush_meets disk).mono (fun _ out' h' ends => ?_) fun _ _ _ no => no.elim
          exact one (ends.1.subset held) ends.2
        · next unwanted =>
          exact meets_modify.mpr (one held (offered_line (.notWanted branch (by simpa using unwanted) (by simp))))
  · subst failed
    exact ⟨rfl, rfl⟩

end

/-! ## A watch among others -/

/-- A watch, its listener, and the journal that other processes write too. -/
structure World where
  disk : Restored
  /-- The pushes that were answered accepted, in their order. -/
  answered : List Inbound
  channel : List Inbound
  /-- The pushes that watch took, and what taking each in asked and was told. -/
  taken : List (Inbound × History PollSig)
  /-- The lines that watch printed. -/
  out : List String
  phase : Phase
  pass : Nat

inductive Moment where
  /-- The listener answered a request. -/
  | served (verified : Except Reject (Option Inbound))
  /-- A pass over the repositories was made. -/
  | polled
  /-- A push was taken in. -/
  | pushed
  /-- The channel was found empty. -/
  | emptied
  /-- The queue was run. -/
  | drained (result : Except Fail Nat)
  /-- The clock was looked at. -/
  | rested (past : Bool)
  /-- The listener stopped. -/
  | stopped
  /-- A signal killed the process, where it may have been taking in a push. -/
  | killed
  /-- Another process held the journal and wrote. -/
  | other

namespace World

/-- The listener sends before it answers. Nobody receives once watch has ended. -/
def receive (w : World) : Option Inbound → World
  | some inb => { w with
      answered := w.answered ++ [inb]
      channel := if w.phase = .ended then w.channel else w.channel ++ [inb] }
  | none => w

/-- The journal was written, and lines were printed. -/
def worked (w : World) (disk : Restored) (lines : List String) : World := { w with disk := disk, out := w.out ++ lines }

end World

/-- What can happen next. Records of any kind may be written, by the others and by watch's own polls and queue runs. -/
inductive Step (loop : WatchLoop) : World → Moment → World → Prop where
  | served {w : World} {verified : Except Reject (Option Inbound)} :
      Step loop w (.served verified) (w.receive (serve verified).2)
  | polled {w : World} {disk : Restored} {lines : List String} (here : w.phase = .polling)
      (wrote : Restored.Leads (fun _ => True) w.disk disk) :
      Step loop w .polled { w.worked disk lines with phase := .receiving }
  | pushed {w : World} {inb : Inbound} {rest : List Inbound} {h : History PollSig} {result : Except Fail Unit}
      {out : List String} (here : w.phase = .receiving) (next : w.channel = inb :: rest)
      (follows : Program.Follows ((acceptWebhook inb).toProgram w.out) h (.done (result, out)))
      (reads : ∀ e ∈ h, ReadsOf w.disk e) :
      Step loop w .pushed { w with
        disk := w.disk.after h
        channel := rest
        taken := w.taken ++ [(inb, h)]
        out := out
        phase := WatchLoop.afterPush result }
  | emptied {w : World} (here : w.phase = .receiving) (next : w.channel = []) :
      Step loop w .emptied { w with phase := loop.afterEmpty }
  | drained {w : World} {disk : Restored} {lines : List String} {result : Except Fail Nat} (here : w.phase = .queue)
      (wrote : Restored.Leads (fun _ => True) w.disk disk) :
      Step loop w (.drained result) { w.worked disk lines with phase := WatchLoop.afterQueue result }
  | rested {w : World} {past : Bool} (here : w.phase = .resting) :
      Step loop w (.rested past) { w with
        pass := if past then w.pass + 1 else w.pass
        phase := loop.afterRest (w.pass + 1) past }
  | stopped {w : World} (here : w.phase = .stopping) : Step loop w .stopped { w with phase := .ended }
  | killed {w : World} : Step loop w .killed { w with phase := .ended }
  | killedTaking {w : World} {inb : Inbound} {rest : List Inbound} {h : History PollSig}
      {q : Program PollSig (Except Fail Unit × List String)} (here : w.phase = .receiving)
      (next : w.channel = inb :: rest)
      (follows : Program.Follows ((acceptWebhook inb).toProgram w.out) h q) (reads : ∀ e ∈ h, ReadsOf w.disk e) :
      Step loop w .killed { w with disk := w.disk.after h, channel := rest, phase := .ended }
  | other {w : World} {disk : Restored} (wrote : Restored.Leads (fun _ => True) w.disk disk) :
      Step loop w .other { w with disk := disk }

/-- What runs reach, from any journal. -/
inductive Watched (loop : WatchLoop) : World → Prop where
  | start {s : Restored} (reachable : s.Reachable) : Watched loop ⟨s, [], [], [], [], .polling, 0⟩
  | step {w w' : World} {m : Moment} (before : Watched loop w) (step : Step loop w m w') : Watched loop w'

/-- While watch runs every answered push is in the channel or was taken, in order, and the journal was opened for
each that was taken. A push that was taken is settled where its registration was found. -/
structure Accounted (w : World) : Prop where
  order : w.phase ≠ .ended → w.answered = w.taken.map Prod.fst ++ w.channel
  opened : w.phase ≠ .ended → ∀ inb h, (inb, h) ∈ w.taken → ∃ s, Opened s h
  settled : ∀ inb h, (inb, h) ∈ w.taken → ∀ s repo, Opened s h → s.git.repos.find inb.repo = some repo →
    Settled w.disk.control w.out repo inb

section

variable {loop : WatchLoop} {w w' : World} {m : Moment}

/-- A step that takes no push. -/
theorem Accounted.moved {disk : Restored} {lines : List String} {phase : Phase} {pass : Nat} (accounted : Accounted w)
    (moved : w.disk.control.Moved disk.control) (runs : phase ≠ .ended → w.phase ≠ .ended) :
    Accounted { w.worked disk lines with phase := phase, pass := pass } where
  order goes := accounted.order (runs goes)
  opened goes := accounted.opened (runs goes)
  settled inb h mem s repo opened found :=
    (accounted.settled inb h mem s repo opened found).mono moved (List.subset_append_left _ _)

theorem Accounted.receive (accounted : Accounted w) (inb : Option Inbound) : Accounted (w.receive inb) := by
  cases inb with
  | none => exact accounted
  | some inb =>
    refine ⟨fun goes => ?_, accounted.opened, accounted.settled⟩
    have goes : w.phase ≠ .ended := goes
    show w.answered ++ [inb] = w.taken.map Prod.fst ++ if w.phase = .ended then w.channel else w.channel ++ [inb]
    rw [if_neg goes, accounted.order goes, List.append_assoc]

/-- Between steps of the loop. -/
theorem Accounted.goes {phase : Phase} {pass : Nat} (accounted : Accounted w) (runs : w.phase ≠ .ended) :
    Accounted { w with phase := phase, pass := pass } where
  order _ := accounted.order runs
  opened _ := accounted.opened runs
  settled := accounted.settled

/-- A push that was taken in. -/
theorem Accounted.pushed {inb : Inbound} {rest : List Inbound} {h : History PollSig} {result : Except Fail Unit}
    {out : List String} (accounted : Accounted w) (receiving : w.phase = .receiving) (next : w.channel = inb :: rest)
    (follows : Program.Follows ((acceptWebhook inb).toProgram w.out) h (.done (result, out)))
    (reads : ∀ e ∈ h, ReadsOf w.disk e) :
    Accounted { w with
      disk := w.disk.after h
      channel := rest
      taken := w.taken ++ [(inb, h)]
      out := out
      phase := WatchLoop.afterPush result } := by
  have ends := acceptWebhook_meets.ended follows
  rw [seen_remember, List.nil_append] at ends
  have goes : w.phase ≠ .ended := by rw [receiving]; nofun
  have printed : w.out ⊆ out := by
    cases result with
    | ok _ => exact ends.1
    | error f => exact ends.1 ▸ List.Subset.refl _
  refine ⟨fun _ => ?_, fun on inb' h' mem => ?_, fun inb' h' mem s repo opened found => ?_⟩
  · rw [accounted.order goes, next, List.map_append, List.append_assoc]
    rfl
  · rcases List.mem_append.mp mem with old | new
    · exact accounted.opened goes inb' h' old
    · cases List.mem_singleton.mp new
      cases result with
      | ok _ =>
        obtain ⟨_, s, opened, _⟩ := ends
        exact ⟨s, opened⟩
      | error f => exact absurd rfl on
  · rcases List.mem_append.mp mem with old | new
    · exact (accounted.settled inb' h' old s repo opened found).mono Restored.moved_after printed
    · cases List.mem_singleton.mp new
      have read : s = w.disk := reads _ opened
      cases result with
      | ok _ =>
        obtain ⟨_, s', opened', settled⟩ := ends
        have read' : s' = w.disk := reads _ opened'
        subst read read'
        exact settled repo found
      | error f =>
        rw [Opened, ends.2] at opened
        cases List.mem_singleton.mp opened

/-- One step. -/
theorem Accounted.step (accounted : Accounted w) (step : Step loop w m w') : Accounted w' := by
  cases step with
  | served => exact accounted.receive _
  | polled here wrote => exact accounted.moved wrote.moved fun _ => by rw [here]; nofun
  | pushed here next follows reads => exact accounted.pushed here next follows reads
  | emptied here next => exact accounted.goes (by rw [here]; nofun)
  | drained here wrote => exact accounted.moved wrote.moved fun _ => by rw [here]; nofun
  | rested here => exact accounted.goes (by rw [here]; nofun)
  | stopped here => exact ⟨fun no => absurd rfl no, fun no => absurd rfl no, accounted.settled⟩
  | killed => exact ⟨fun no => absurd rfl no, fun no => absurd rfl no, accounted.settled⟩
  | killedTaking here next follows reads =>
    exact ⟨fun no => absurd rfl no, fun no => absurd rfl no, fun inb h mem s repo opened found =>
      (accounted.settled inb h mem s repo opened found).mono Restored.moved_after (List.Subset.refl _)⟩
  | other wrote =>
    exact ⟨accounted.order, accounted.opened, fun inb h mem s repo opened found =>
      (accounted.settled inb h mem s repo opened found).mono wrote.moved (List.Subset.refl _)⟩

/-- A whole run. -/
theorem Watched.accounted (watched : Watched loop w) : Accounted w := by
  induction watched with
  | start _ =>
    exact ⟨fun _ => rfl, fun _ _ _ mem => (List.not_mem_nil mem).elim, fun _ _ mem => (List.not_mem_nil mem).elim⟩
  | step _ step ih => exact ih.step step

/-- **No accepted push is lost while watch runs.** Whatever the listener answers and other processes write meanwhile,
every push that was answered is in the channel or was taken, in order; each that was taken and whose registration was
found is settled; and the loop goes on from the channel when every push that was answered was taken. -/
theorem no_accepted_push_lost (watched : Watched loop w) (runs : w.phase ≠ .ended) :
    w.answered = w.taken.map Prod.fst ++ w.channel ∧
    (∀ inb h, (inb, h) ∈ w.taken → ∃ s, Opened s h ∧ ∀ repo, s.git.repos.find inb.repo = some repo →
      Settled w.disk.control w.out repo inb) ∧
    ∀ w', Step loop w .emptied w' → w.answered = w.taken.map Prod.fst := by
  have accounted := watched.accounted
  refine ⟨accounted.order runs, fun inb h mem => ?_, fun w' step => ?_⟩
  · obtain ⟨s, opened⟩ := accounted.opened runs inb h mem
    exact ⟨s, opened, fun repo => accounted.settled inb h mem s repo opened⟩
  · cases step with
    | emptied _ next => rw [accounted.order runs, next, List.append_nil]

end

/-! ### A push that arrives, and a signal -/

namespace Arrived

def loop : WatchLoop := ⟨true, none⟩

def push : Inbound := ⟨"shop", ⟨.gitHub, Twice.repo.url, "refs/heads/main", Twice.tip, "d1"⟩⟩

/-- The push was answered. -/
def answered : World := ⟨Twice.start, [push], [push], [], [], .polling, 0⟩

theorem watched_answered : Watched loop answered :=
  (Watched.start Twice.start_reachable).step (m := .served (.ok (some push))) .served

def taking : History PollSig × Except Fail Unit × List String :=
  ((acceptWebhook push).toProgram []).play (S := PollSig) (Twice.answers Twice.start)

/-- The push was taken in. -/
def taken : World :=
  ⟨Twice.start.after taking.1, [push], [], [(push, taking.1)], taking.2.2, WatchLoop.afterPush taking.2.1, 0⟩

theorem watched_taken : Watched loop taken := by
  have polls : Step loop answered .polled { answered.worked answered.disk [] with phase := .receiving } :=
    .polled rfl .refl
  refine (watched_answered.step polls).step (.pushed rfl rfl (Program.play_follows _ _) fun e mem => ?_)
  have mem : e ∈ (((acceptWebhook push).toProgram []).play (S := PollSig) (Twice.answers Twice.start)).1 := mem
  rw [Program.play_history] at mem
  obtain ⟨op, _, rfl⟩ := List.mem_map.mp mem
  cases op <;> first | exact rfl | exact trivial

end Arrived

theorem no_accepted_push_lost_arrived :
    Arrived.taken.answered = Arrived.taken.taken.map Prod.fst ++ Arrived.taken.channel ∧
    (∀ inb h, (inb, h) ∈ Arrived.taken.taken → ∃ s, Opened s h ∧ ∀ repo, s.git.repos.find inb.repo = some repo →
      Settled Arrived.taken.disk.control Arrived.taken.out repo inb) ∧
    ∀ w', Step Arrived.loop Arrived.taken .emptied w' → Arrived.taken.answered = Arrived.taken.taken.map Prod.fst :=
  no_accepted_push_lost Arrived.watched_taken (by decide)

/-- A signal takes what is in the channel. -/
theorem signal_loses_push : ¬ ∀ (loop : WatchLoop) (w : World), Watched loop w → w.phase = .ended →
    ∀ inb ∈ w.answered, ∃ repo, Settled w.disk.control w.out repo inb := by
  intro kept
  have killed : Watched Arrived.loop { Arrived.answered with phase := .ended } := Arrived.watched_answered.step .killed
  obtain ⟨repo, settled⟩ := kept _ _ killed rfl Arrived.push List.mem_cons_self
  cases settled with
  | recorded found same => cases found
  | refused line => cases line
  | notBranch other line => cases line
  | notWanted other unwanted line => cases line

end Harpoon.Git.Watch
