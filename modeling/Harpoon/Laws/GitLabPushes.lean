import Harpoon.Git.Webhook
import Harpoon.Laws.Delivery
import Harpoon.Laws.JsonRoundTrip
import Harpoon.Laws.Poll

/-!
# Pushes of GitLab in the queue

A push that does not name its event is a delivery of its commit: two such pushes are one delivery exactly when their commits are the
same. What was queued of a commit is not queued again, to whatever branch and in whatever order it is pushed, and no other push is
dropped for it.
-/

namespace Harpoon.Git

open Deploy Control Interact Process
open Wire (Bytes)

/-- A verified push of GitLab that does not name its event. -/
def Unnamed (ev : PushEvent) : Prop :=
  ∃ token headers body, Headers.get headers "X-Gitlab-Event-UUID" = none ∧ verifyGitLab token headers body = .ok (some ev)

def commitDelivery (commit : String) : String := s!"gitlab:{commit}"

theorem verifyGitLab_inv {token body : Bytes} {h : Headers} {ev : PushEvent} (taken : verifyGitLab token h body = .ok (some ev)) :
    ev.provider = .gitLab ∧ isCommit ev.revision = true ∧ gitLabDelivery h ev.revision = .ok ev.delivery := by
  unfold verifyGitLab at taken
  dsimp only at taken
  split at taken
  next => cases taken
  next =>
    split at taken
    next =>
      split at taken
      next => cases taken
      next =>
        split at taken
        next => cases taken
        next =>
          obtain ⟨j, -, taken⟩ := Journal.bind_ok taken
          obtain ⟨after, -, taken⟩ := Journal.bind_ok taken
          split at taken
          next commit =>
            split at taken
            next => cases taken
            next =>
              obtain ⟨r, -, taken⟩ := Journal.bind_ok taken
              obtain ⟨delivery, named, taken⟩ := Journal.bind_ok taken
              cases taken
              exact ⟨rfl, commit, named⟩
          next => cases taken
    next => cases taken

theorem commitDelivery_eq (commit : String) : commitDelivery commit = "gitlab:" ++ commit := rfl

theorem commitDelivery_inj {c c' : String} : commitDelivery c = commitDelivery c' ↔ c = c' := by
  rw [commitDelivery_eq, commitDelivery_eq, String.append_right_inj]

/-- What the event of a push says. -/
theorem Unnamed.event {ev : PushEvent} (unnamed : Unnamed ev) :
    ev.source = "gitlab" ∧ isCommit ev.revision = true ∧ ev.delivery = commitDelivery ev.revision := by
  obtain ⟨token, h, body, none_, taken⟩ := unnamed
  obtain ⟨provider, commit, named⟩ := verifyGitLab_inv taken
  refine ⟨by rw [PushEvent.source, provider], commit, ?_⟩
  rw [gitLabDelivery, none_] at named
  exact (Except.ok.inj named).symm

/-- The event of an application that a push asks for. -/
def incoming (app : ApplicationId) (ev : PushEvent) (receivedMs : Nat) : Incoming :=
  ⟨app, ev.delivery, ev.source, ev.revision, receivedMs⟩

theorem token_of_chars {what v : String} {extra : List Char} (some_ : v ≠ "") (fits : byteLen v ≤ maxToken)
    (chars : ∀ c ∈ v.toList, tokenChar extra c = true) : Control.token what v extra = .ok () := by
  have sized : ¬ (v.isEmpty = true ∨ byteLen v > maxToken) := by
    rintro (empty | long)
    · exact some_ (String.isEmpty_iff.mp empty)
    · omega
  have none_ : (v.toList.find? fun c => !tokenChar extra c) = none :=
    List.find?_eq_none.mpr fun c mem => by simpa using chars c mem
  rw [Control.token, if_neg sized, none_]

/-- What a push asks for is accepted by the queue. -/
theorem Unnamed.check {app : ApplicationId} {ev : PushEvent} {ms : Nat} (unnamed : Unnamed ev) :
    (incoming app ev ms).check = .ok () := by
  obtain ⟨source, commit, delivery⟩ := unnamed.event
  have size : ev.revision.utf8ByteSize = 40 ∨ ev.revision.utf8ByteSize = 64 := by
    have sizes := (Bool.and_eq_true _ _ ▸ commit : _ ∧ _).1
    simpa using sizes
  have plain (extra : List Char) : ∀ c ∈ ev.revision.toList, tokenChar extra c = true := by
    intro c mem
    have plain := isCommit_chars commit c mem
    unfold Config.tokenChar at plain
    rw [tokenChar, plain, Bool.true_or]
  have some_ : ev.revision ≠ "" := by
    intro empty
    rw [empty] at size
    revert size
    decide
  have revision : checkRevision ev.revision = .ok () :=
    token_of_chars some_ (by rw [byteLen, maxToken]; omega) (plain _)
  have named : checkDelivery ev.delivery = .ok () := by
    rw [delivery, commitDelivery_eq]
    refine token_of_chars ?_ ?_ ?_
    · intro empty
      have chars := congrArg String.toList empty
      rw [String.toList_append] at chars
      cases chars
    · have front : ("gitlab:" : String).utf8ByteSize = 7 := by decide
      rw [byteLen, maxToken, String.utf8ByteSize_append]
      omega
    · intro c mem
      rw [String.toList_append] at mem
      rcases List.mem_append.mp mem with mem | mem
      · exact (Wire.forall_mem_of_all (by decide) : ∀ c ∈ "gitlab:".toList, tokenChar [':'] c = true) c mem
      · exact plain _ c mem
  rw [Incoming.check]
  show (checkDelivery ev.delivery >>= fun _ => checkSource ev.source >>= fun _ => checkRevision ev.revision) = _
  rw [named, source, revision]
  rfl

/-- An event that is there after a record was there before, with the same content, or is the one recorded. -/
theorem event_before {s s' : ControlState} {r : ControlRecord} {k : EventKey} {e' : Control.Event} (applied : s.apply r = .ok s')
    (found : s'.events.find k = some e') :
    (∃ e, s.events.find k = some e ∧ e'.record = e.record) ∨ ∃ x, r = .event x ∧ e' = .hold x ∧ (Control.Event.hold x).key = k := by
  cases before : s.events.find k with
  | some e =>
    obtain ⟨e'', found', record, _⟩ := ControlState.apply_moved applied k e before
    cases found.symm.trans found'
    exact .inl ⟨e, rfl, record⟩
  | none =>
    right
    cases r with
    | pause p =>
      obtain ⟨_, rfl⟩ := ControlState.applyPause_ok.mp applied
      cases before.symm.trans found
    | event x =>
      obtain ⟨free, rfl⟩ := ControlState.applyEvent_ok.mp applied
      rw [Keyed.Table.find_push] at found
      split at found
      next here =>
        cases found
        exact ⟨x, rfl, rfl, here⟩
      next => cases before.symm.trans found
    | exec x =>
      obtain ⟨⟨chosen, allowed⟩, rfl⟩ := ControlState.applyExec_ok.mp applied
      rw [ControlState.find_settleExec allowed, before] at found
      split at found
      next main =>
        rw [main, ← ControlState.event_eq, allowed.found] at before
        cases before
      next => split at found <;> cases found
    | resume y =>
      obtain ⟨allowed, rfl⟩ := ControlState.applyResume_ok.mp applied
      by_cases named : k.1 = y.app ∧ k.2 ∈ y.superseded.map (·.1)
      · obtain ⟨p, mem, same⟩ := List.mem_map.mp named.2
        obtain ⟨e, there, _⟩ := allowed.superseded p mem
        rw [ControlState.event_eq, same, ← named.1, before] at there
        cases there
      · rw [ControlState.find_settleResume named, before] at found
        split at found
        next => cases found
        next => split at found <;> cases found

/-! ## The queue -/

abbrev Answer := Except ControlError Ingress

/-- What becomes of the queue of an application while pushes are queued, each as it is read back from the journal, and anything else
is recorded, but no event under the name of a commit. -/
inductive Handled (app : ApplicationId) (ctl₀ : ControlState) : List (PushEvent × Answer) → ControlState → Prop where
  | start : Handled app ctl₀ [] ctl₀
  | push {past : List (PushEvent × Answer)} {ctl ctl' : ControlState} {ev : PushEvent} {ms : Nat} {answer : Answer} {h : Control.Writes}
      (before : Handled app ctl₀ past ctl) (unnamed : Unnamed ev)
      (asked : Program.Follows ((queueEvent (incoming app ev ms)).toProgram ctl) h (.done (answer, ctl'))) :
      Handled app ctl₀ (past ++ [(ev, answer)]) (onDisk ctl h)
  | record {past : List (PushEvent × Answer)} {ctl ctl' : ControlState} {r : ControlRecord} (before : Handled app ctl₀ past ctl)
      (applied : ctl.apply r = .ok ctl') (other : ∀ x, r = .event x → x.app = app → ∀ c, x.delivery ≠ commitDelivery c) :
      Handled app ctl₀ past ctl'

/-- Which commits are known to the queue: those that were pushed, and each one that was held. -/
structure Known (app : ApplicationId) (past : List (PushEvent × Answer)) (ctl : ControlState) : Prop where
  pushed : ∀ c e, ctl.event app (commitDelivery c) = some e →
    e.record.source = "gitlab" ∧ e.record.revision = c ∧ ∃ p ∈ past, p.1.revision = c
  held : ∀ p ∈ past, p.2 = .ok .held → ∃ e, ctl.event app (commitDelivery p.1.revision) = some e

/-- A record that is no event under the name of a commit. -/
theorem Known.record {app : ApplicationId} {past : List (PushEvent × Answer)} {ctl ctl' : ControlState} {r : ControlRecord}
    (known : Known app past ctl) (applied : ctl.apply r = .ok ctl')
    (other : ∀ x, r = .event x → x.app = app → ∀ c, x.delivery ≠ commitDelivery c) : Known app past ctl' where
  pushed c e found := by
    rcases event_before applied found with ⟨e₀, before, record⟩ | ⟨x, rfl, rfl, here⟩
    · rw [record]
      exact known.pushed c e₀ before
    · exact absurd (congrArg Prod.snd here) (other x rfl (congrArg Prod.fst here) c)
  held p mem held := by
    obtain ⟨e, before⟩ := known.held p mem held
    obtain ⟨e', found, _⟩ := ControlState.apply_moved applied _ e before
    exact ⟨e', found⟩

/-- How a push is answered by a queue that knows what was pushed. -/
structure PushAnswer (before : List (PushEvent × Answer)) (ev : PushEvent) (answer : Answer) : Prop where
  repeated : answer = .ok .duplicate → ∃ p ∈ before, p.1.revision = ev.revision
  known : (∃ p ∈ before, p.2 = .ok .held ∧ p.1.revision = ev.revision) → answer = .ok .duplicate
  kinds : answer = .ok .duplicate ∨ answer = .ok .held ∨ ∃ e, answer = .error (.journal e)

section

variable {app : ApplicationId} {past : List (PushEvent × Answer)} {ctl₀ ctl ctl' : ControlState} {ev : PushEvent} {ms : Nat}
  {answer : Answer} {h : Control.Writes}

/-- A push of which nothing was stored. -/
theorem Known.kept (known : Known app past ctl) (other : answer ≠ .ok .held) : Known app (past ++ [(ev, answer)]) ctl where
  pushed c e found :=
    have ⟨source, revision, p, mem, same⟩ := known.pushed c e found
    ⟨source, revision, p, List.mem_append_left _ mem, same⟩
  held p mem held := by
    rcases List.mem_append.mp mem with mem | mem
    · exact known.held p mem held
    · rw [List.mem_singleton.mp mem] at held
      exact absurd held other

/-- A push whose event was stored. -/
theorem Known.stored (known : Known app past ctl) (unnamed : Unnamed ev)
    (applied : ctl.apply (.event (incoming app ev ms).record) = .ok ctl') : Known app (past ++ [(ev, answer)]) ctl' where
  pushed c e found := by
    rcases event_before applied found with ⟨e₀, before, record⟩ | ⟨x, same, rfl, here⟩
    · obtain ⟨source, revision, p, mem, pushed⟩ := known.pushed c e₀ before
      rw [record]
      exact ⟨source, revision, p, List.mem_append_left _ mem, pushed⟩
    · cases same
      obtain ⟨source, -, delivery⟩ := unnamed.event
      have commit : ev.revision = c := by
        have named : ev.delivery = commitDelivery c := congrArg Prod.snd here
        rw [delivery] at named
        exact commitDelivery_inj.mp named
      exact ⟨source, commit, _, List.mem_append_right _ (List.mem_singleton_self _), commit⟩
  held p mem held := by
    rcases List.mem_append.mp mem with mem | mem
    · obtain ⟨e, before⟩ := known.held p mem held
      obtain ⟨e', found, _⟩ := ControlState.apply_moved applied _ e before
      exact ⟨e', found⟩
    · rw [List.mem_singleton.mp mem]
      have found := event_of_queued applied
      rw [← unnamed.event.2.2]
      exact ⟨_, found⟩

theorem Known.push (known : Known app past ctl) (unnamed : Unnamed ev)
    (asked : Program.Follows ((queueEvent (incoming app ev ms)).toProgram ctl) h (.done (answer, ctl'))) :
    PushAnswer past ev answer ∧ Known app (past ++ [(ev, answer)]) (onDisk ctl h) := by
  have delivery := unnamed.event.2.2
  have recorded {old : Control.Event} (found : ctl.event app ev.delivery = some old) :
      old.record.source = ev.source ∧ old.record.revision = ev.revision ∧ ∃ p ∈ past, p.1.revision = ev.revision := by
    rw [delivery] at found
    obtain ⟨source, revision, pushed⟩ := known.pushed _ old found
    exact ⟨source.trans unnamed.event.1.symm, revision, pushed⟩
  have accepted : ¬ Refuses ctl (incoming app ev ms) := by
    rintro (bad | ⟨old, found, other⟩)
    · exact bad unnamed.check
    · exact other ⟨(recorded found).1, (recorded found).2.1⟩
  have unheld {i : Answer} : (∃ p ∈ past, p.2 = .ok .held ∧ p.1.revision = ev.revision) → Fresh ctl (incoming app ev ms) →
      i = .ok .duplicate := by
    rintro ⟨p, mem, held, same⟩ fresh
    obtain ⟨e, found⟩ := known.held p mem held
    rw [same, ← delivery] at found
    cases found.symm.trans fresh
  have meets : Meets store (fun _ _ => True) (queueEvent (incoming app ev ms))
      (fun i _ t => PushAnswer past ev (.ok i) ∧ Known app (past ++ [(ev, .ok i)]) t)
      (fun e _ t => PushAnswer past ev (.error e) ∧ Known app (past ++ [(ev, .error e)]) t) ctl ctl := by
    refine queueEvent_meets (fun refused => absurd refused accepted) (fun _ old => ?_) fun _ fresh => ⟨trivial, ?_, ?_⟩
    · have pushed : ∃ p ∈ past, p.1.revision = ev.revision := by
        cases found : ctl.event app ev.delivery with
        | none => exact absurd found old
        | some e => exact (recorded found).2.2
      exact ⟨⟨fun _ => pushed, fun _ => rfl, .inl rfl⟩, known.kept nofun⟩
    · intro ctl' stored
      have after : store ctl ⟨.event (incoming app ev ms).record, .acknowledged⟩ = ctl' := onDisk_acknowledged stored
      rw [after]
      exact ⟨⟨nofun, fun held => unheld held fresh, .inr (.inl rfl)⟩, known.stored unnamed stored⟩
    · intro e stored
      refine ⟨⟨nofun, fun held => unheld held fresh, .inr (.inr ⟨e, rfl⟩)⟩, ?_⟩
      rcases store_cases ctl ⟨.event (incoming app ev ms).record, .failed e stored⟩ with same | applied
      · rw [same]
        exact known.kept nofun
      · exact known.stored unnamed applied
  have outcome := Program.Obeys.ended meets asked
  cases answer <;> exact outcome

/-- The queue knows what was pushed. -/
theorem Handled.known (new : ∀ c, ctl₀.event app (commitDelivery c) = none) (handled : Handled app ctl₀ past ctl) :
    Known app past ctl := by
  induction handled with
  | start => exact ⟨fun c e found => (by cases (new c).symm.trans found), fun p mem => absurd mem List.not_mem_nil⟩
  | push _ unnamed asked ih => exact (ih.push unnamed asked).2
  | record _ applied other ih => exact ih.record applied other

/-- Each push is answered by what was pushed before it. -/
theorem Handled.answers {before after : List (PushEvent × Answer)} {p : PushEvent × Answer}
    (new : ∀ c, ctl₀.event app (commitDelivery c) = none) (handled : Handled app ctl₀ past ctl)
    (split : past = before ++ p :: after) : PushAnswer before p.1 p.2 := by
  induction handled generalizing after with
  | start => cases before <;> cases split
  | @push past ctl ctl' ev ms answer h so unnamed asked ih =>
    rcases List.eq_nil_or_concat after with rfl | ⟨after, last, rfl⟩
    · obtain ⟨rfl, same⟩ := List.append_inj' split rfl
      cases same
      exact ((so.known new).push unnamed asked).1
    · have same : past ++ [(ev, answer)] = (before ++ p :: after) ++ [last] := by
        rw [split, List.concat_eq_append, List.append_assoc, List.cons_append]
      exact ih (List.append_inj' same rfl).1
  | record _ _ _ ih => exact ih split

end

/-! ## One commit on two branches -/

namespace Branches

def commit : String := "00000000000000000000000000000000000000ab"

def headers : Headers := [("X-Gitlab-Token", "t"), ("X-Gitlab-Event", "Push Hook")]

def payload (ref : String) : Docker.Json := .obj [("ref", .str ref), ("after", .str commit)]

def body (ref : String) : Bytes := Wire.utf8 (Docker.Json.toJson (fun _ => "") (payload ref))

def push (ref : String) : PushEvent := ⟨.gitLab, "", ref, commit, commitDelivery commit⟩

theorem parseBody_body (ref : String) : parseBody (body ref) = .ok (payload ref) := by
  have regular : Docker.JsonText.Regular (Docker.JsonText.maxDepth + 1) (payload ref) := by
    intro m mem
    rcases List.mem_cons.mp mem with rfl | mem
    · trivial
    · cases List.mem_singleton.mp mem
      trivial
  have read : Docker.Json.parse (Docker.Json.toJson (fun _ => "") (payload ref)) = .ok (payload ref) :=
    Docker.JsonText.parse_iff.mpr ((Docker.JsonText.toJson_text _ regular).mono Docker.JsonText.strict_lenient)
  rw [parseBody, body, Wire.fromUtf8_utf8]
  dsimp only
  rw [read]

theorem ok_bind {ε α β : Type} (a : α) (f : α → Except ε β) : (Except.ok a >>= f) = f a := rfl

theorem verified (ref : String) : verifyGitLab (Wire.utf8 "t") headers (body ref) = .ok (some (push ref)) := by
  have token : headers.get "X-Gitlab-Token" = some "t" := by decide
  have kind : headers.get "X-Gitlab-Event" = some "Push Hook" := by decide
  have same : constantTimeEq (Wire.utf8 "t") (Wire.utf8 "t") = true := by decide
  have delivery : gitLabDelivery headers commit = .ok (commitDelivery commit) := by
    rw [gitLabDelivery, show headers.get "X-Gitlab-Event-UUID" = none from by decide]
    rfl
  have after : gitLabCommit (payload ref) = some commit := rfl
  have valid : isCommit commit = true := by decide
  have some_ : ¬ zeros commit = true := by decide
  rw [verifyGitLab, token, kind]
  dsimp only
  have taken : present "no commit in the push" (gitLabCommit (payload ref)) = .ok commit := by rw [after]; rfl
  have branch : present "no 'ref'" (((payload ref).get "ref").bind Docker.Json.asStr) = .ok ref := rfl
  rw [if_pos same, if_neg (by decide), parseBody_body, ok_bind, taken, ok_bind, if_pos valid, if_neg some_, branch, ok_bind, delivery,
    ok_bind]
  rfl

theorem unnamed (ref : String) : Unnamed (push ref) := ⟨Wire.utf8 "t", headers, body ref, by decide, verified ref⟩

def app : ApplicationId := ⟨1#128⟩

/-- A push is queued, and its record is stored. -/
def queued (ctl : ControlState) (ref : String) : History ControlSig × Answer × ControlState :=
  ((queueEvent (incoming app (push ref) 7)).toProgram ctl).play (S := ControlSig) fun _ => .acknowledged

def past : List (PushEvent × Answer) :=
  [(push "refs/heads/main", (queued .new "refs/heads/main").2.1),
    (push "refs/heads/dev", (queued (onDisk .new (queued .new "refs/heads/main").1) "refs/heads/dev").2.1)]

theorem handled : ∃ ctl, Handled app .new past ctl :=
  ⟨_, .push (.push .start (unnamed _) (Program.play_follows _ _)) (unnamed _) (Program.play_follows _ _)⟩

end Branches

end Harpoon.Git
