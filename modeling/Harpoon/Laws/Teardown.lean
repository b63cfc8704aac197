import Harpoon.Cli.Teardown
import Harpoon.Laws.Acceptance
import Harpoon.Laws.Custody

/-!
# What a teardown does in which order

A teardown acts on entries that are not released yet, and on each only when it is due: a container when those before it are
released, an image when all containers of the release are, and a lease when besides no container maps its port. No record of
it is refused by the ledger, so that what was released stays so and a repetition goes on with the rest.
-/

namespace Harpoon.Cli

open Interact Deploy Docker Process

/-! ## The rule -/

def ReleasedIn (l : Ledger) (e : Entry) : Prop := ∃ x, l.find e.deployment e.key = some x ∧ x.isReleased = true

def AllReleased (l : Ledger) (entries : List Entry) : Prop := ∀ e ∈ entries, ReleasedIn l e

/-- No container of the list uses the image, or may. -/
def Unused (image : String) (containers : List ContainerSummary) : Prop :=
  ∀ c ∈ containers, c.imageId ≠ "" ∧ c.imageId ≠ image

/-- Docker was seen to map the port to no container, neither to a running nor to a configured one. -/
def Unmapped (t : Past) (port : UInt16) : Prop :=
  ∃ containers, Answered t .listContainers containers ∧ ∀ c ∈ containers, port ∉ c.hostPorts ∧
    (c.state ≠ "running" → ∃ own, Answered t (.configuredHostPorts c.id) own ∧ port ∉ own)

/-- It was seen after every container of the release had been released. -/
def Afterwards (l : Ledger) (targets : Targets) (t : Past) (seen : Past → Prop) : Prop :=
  ∃ later before, t = later ++ before ∧ AllReleased (acked l before) targets.containers ∧ seen later

def portOf (e : Entry) : Option UInt16 := (Wire.parseUnsigned 10 65535 e.key.name).map UInt16.ofNat

/-- When it is an entry's turn. -/
def Due (l : Ledger) (targets : Targets) (t : Past) (e : Entry) : Prop :=
  match e.key.kind with
  | .container => ∃ before after, unreleased targets.containers = before ++ e :: after ∧ AllReleased (acked l t) before
  | .image => AllReleased (acked l t) targets.containers
  | .portLease => ∃ port, portOf e = some port ∧ Afterwards l targets t (Unmapped · port)

def isCleanup : LedgerRecord → Bool
  | .cleanupAttempt _ _ _ | .cleanupResult _ _ _ _ => true
  | _ => false

/-- What a teardown may ask. -/
def Tearing (l : Ledger) (targets : Targets) (t : Past) : StepOp → Prop
  | .engine .nowMs | .engine .listResources => True
  | .engine (.record r) => isCleanup r = true ∧ ∃ e ∈ targets.unreleased, (r.deployment, r.key) = e.ref ∧
      ¬ ReleasedIn (acked l t) e ∧ Due l targets t e
  | .engine (.removeResource req) => ∃ e ∈ targets.unreleased, ∃ id, e.id = some id ∧ req = requestFor e id ∧
      e.key.kind ≠ .portLease ∧ ¬ ReleasedIn (acked l t) e ∧ Due l targets t e ∧
      (e.key.kind = .image → Afterwards l targets t fun later =>
        ∃ containers, Answered later .listContainers containers ∧ Unused id containers)
  | .engine _ => False
  | .host (.api .listContainers _) | .host (.api (.configuredHostPorts _) _) => True
  | .host _ => False

/-- A call that succeeded: what was written is stored, what was to be removed is gone, and what Docker lists is in no way of
the teardown. -/
def Succeeds (targets : Targets) : Event StepSig → Prop
  | ⟨.engine (.record _), w⟩ => w = .acknowledged
  | ⟨.engine .listResources, listed⟩ => ∃ observed, listed = .ok observed ∧
      ∀ e ∈ targets.unreleased, ∀ why, locate e observed ≠ .mismatch why
  | ⟨.engine (.removeResource _), answer⟩ => answer = .ok .removed ∨ answer = .ok .alreadyAbsent
  | ⟨.host (.api .listContainers _), answer⟩ => ∃ containers, answer = .ok containers ∧
      (∀ e ∈ unreleased targets.images, ∀ id, e.id = some id → Unused id containers) ∧
      ∀ e ∈ unreleased targets.leases, ∀ port, portOf e = some port → ∀ c ∈ containers, port ∉ c.hostPorts
  | ⟨.host (.api (.configuredHostPorts _) _), answer⟩ => ∃ own, answer = .ok own ∧
      ∀ e ∈ unreleased targets.leases, ∀ port, portOf e = some port → port ∉ own
  | _ => True

section

variable {l led led' : Ledger} {targets : Targets} {t t' : Past} {e x : Entry} {r : LedgerRecord} {a : Action}
  {entries : List Entry}

/-! ## What stays -/

theorem ReleasedIn.apply (sound : led.Sound) (released : ReleasedIn led e) (r : LedgerRecord) :
    ReleasedIn (led.apply r).2 e := by
  rcases led.apply_cases r with ⟨_, same⟩ | applied
  · rwa [same]
  · obtain ⟨x, found, gone⟩ := released
    obtain ⟨y, mem, later⟩ := applied.later sound (Ledger.find_mem found)
    obtain rfl := later.settled (by rw [Entry.isSettled, gone]; rfl)
    obtain ⟨dep, key⟩ := Prod.mk.inj (Ledger.find_ref found)
    have there := (applied.sound sound).find_of_mem mem
    rw [dep, key] at there
    exact ⟨y, there, gone⟩

theorem ReleasedIn.mono (sound : l.Sound) (grows : t <:+ t') (released : ReleasedIn (acked l t) e) :
    ReleasedIn (acked l t') e := by
  obtain ⟨k, rfl⟩ := grows
  induction k with
  | nil => exact released
  | cons ev k ih =>
    show ReleasedIn (ledgerOf _ l (ev :: (k ++ t))) e
    unfold ledgerOf
    split
    next r _ => exact ih.apply (sound_acked sound _) r
    next => exact ih

theorem AllReleased.mono (sound : l.Sound) (grows : t <:+ t') (released : AllReleased (acked l t) entries) :
    AllReleased (acked l t') entries := fun e mem => (released e mem).mono sound grows

theorem Afterwards.mono {seen : Past → Prop} (stays : ∀ k later, seen later → seen (k ++ later)) (grows : t <:+ t')
    (afterwards : Afterwards l targets t seen) : Afterwards l targets t' seen := by
  obtain ⟨k, rfl⟩ := grows
  obtain ⟨later, before, rfl, released, sight⟩ := afterwards
  exact ⟨k ++ later, before, (List.append_assoc ..).symm, released, stays k later sight⟩

theorem Unmapped.mono {port : UInt16} (k : Past) (unmapped : Unmapped t port) : Unmapped (k ++ t) port := by
  have grows : t ⊆ k ++ t := fun _ mem => List.mem_append_right _ mem
  obtain ⟨containers, listed, free⟩ := unmapped
  refine ⟨containers, listed.mono grows, fun c mem => ⟨(free c mem).1, fun stopped => ?_⟩⟩
  exact ((free c mem).2 stopped).imp fun own h => ⟨h.1.mono grows, h.2⟩

theorem Due.mono (sound : l.Sound) (grows : t <:+ t') (due : Due l targets t e) : Due l targets t' e := by
  unfold Due at due ⊢
  split at due
  next =>
    obtain ⟨before, after, split, released⟩ := due
    exact ⟨before, after, split, released.mono sound grows⟩
  next => exact due.mono sound grows
  next =>
    obtain ⟨port, name, unmapped⟩ := due
    exact ⟨port, name, unmapped.mono (fun k later => Unmapped.mono k) grows⟩

theorem not_released (found : led.find e.deployment e.key = some x) (unsettled : x.isSettled = false) :
    ¬ ReleasedIn led e := by
  rintro ⟨y, found', released⟩
  cases found.symm.trans found'
  rw [Entry.isSettled, released] at unsettled
  cases unsettled

/-! ## One record -/

/-- How carrying out an action may end early: a record was not stored. -/
def Lost (targets : Targets) (x : EngineError) (t : Past) : Prop :=
  (∃ j, x = .journal j) ∧ ∃ ev ∈ t, ¬ Succeeds targets ev

/-- The rule, for what the engine asks. -/
abbrev engineTearing (l : Ledger) (targets : Targets) (t : Past) (op : EngineOp) : Prop := Tearing l targets t (.engine op)

theorem write_tears (on : led = acked l t) (applied : Ledger.Applied led r led')
    (allowed : Tearing l targets t (.engine (.record r))) :
    Meets onPast (engineTearing l targets) (writeRecord r)
      (fun _ led₂ t₂ => led₂ = led' ∧ led₂ = acked l t₂ ∧ t <:+ t₂) (fun err _ t₂ => Lost targets err t₂) led t := by
  refine meets_bind.mpr (meets_get.mpr ?_)
  rw [applied.eq]
  refine meets_bind.mpr (meets_ask.mpr ⟨allowed, fun answer => ?_⟩)
  cases answer with
  | acknowledged => exact ⟨rfl, (acked_record (on ▸ applied)).symm, List.suffix_cons _ _⟩
  | failed j stored => exact ⟨⟨j, rfl⟩, _, List.mem_cons_self, fun ok => by cases ok⟩

/-- The past after the clock was read. -/
theorem suffix_now (t : Past) (ms : Nat) : t <:+ onPast t ⟨.nowMs, ms⟩ := List.suffix_cons _ _

theorem attempt_tears (sound : l.Sound) (on : led = acked l t) (mem : e ∈ targets.unreleased)
    (found : led.find e.deployment e.key = some x) (unsettled : x.isSettled = false) (due : Due l targets t e) :
    Meets onPast (engineTearing l targets) (attempt e.ref)
      (fun _ led' t' => led' = acked l t' ∧ t <:+ t' ∧ Changed e.ref led led' x.attempted)
      (fun err _ t' => Lost targets err t') led t := by
  refine meets_bind.mpr (meets_ask.mpr ⟨trivial, fun ms => ?_⟩)
  have applied : Ledger.Applied led (.cleanupAttempt e.key e.deployment ms) _ := .attempt found unsettled
  have live : ¬ ReleasedIn (acked l t) e := on ▸ not_released found unsettled
  refine (write_tears (t := onPast t ⟨.nowMs, ms⟩) on applied
    ⟨rfl, e, mem, rfl, live, due.mono sound (suffix_now t ms)⟩).mono ?_ fun _ _ _ h => h
  rintro _ led' t' ⟨rfl, on', grows⟩
  refine ⟨on', (suffix_now t ms).trans grows, changed_modifyEntry found (fun _ => rfl) ?_⟩
  exact applied.sound (on ▸ sound_acked sound t)

theorem settle_tears {outcome : CleanupOutcome} (sound : l.Sound) (on : led = acked l t) (mem : e ∈ targets.unreleased)
    (found : led.find e.deployment e.key = some x) (outstanding : x.cleanupOutstanding = true)
    (conflict : Ledger.isConflict outcome = true → Ledger.mayConflict x = true) (due : Due l targets t e) :
    Meets onPast (engineTearing l targets) (settle e.ref outcome)
      (fun _ led' t' => led' = acked l t' ∧ t <:+ t' ∧ Changed e.ref led led' (x.finished outcome))
      (fun err _ t' => Lost targets err t') led t := by
  refine meets_bind.mpr (meets_ask.mpr ⟨trivial, fun ms => ?_⟩)
  have sound' : led.Sound := on ▸ sound_acked sound t
  have applied : Ledger.Applied led (.cleanupResult e.key e.deployment outcome ms) _ := .result found outstanding conflict
  have live : ¬ ReleasedIn (acked l t) e :=
    on ▸ not_released found ((sound'.entry x (Ledger.find_mem found)).unsettled outstanding)
  refine (write_tears (t := onPast t ⟨.nowMs, ms⟩) on applied
    ⟨rfl, e, mem, rfl, live, due.mono sound (suffix_now t ms)⟩).mono ?_ fun _ _ _ h => h
  rintro _ led' t' ⟨rfl, on', grows⟩
  exact ⟨on', (suffix_now t ms).trans grows, changed_modifyEntry found (fun _ => rfl) (applied.sound sound')⟩

/-- Every call succeeded. -/
def AllSucceed (targets : Targets) (t : Past) : Prop := ∀ ev ∈ t, Succeeds targets ev

theorem AllSucceed.mono (grows : t <:+ t') (all : AllSucceed targets t') : AllSucceed targets t :=
  fun ev mem => all ev (grows.subset mem)

/-! ## One action -/

/-- A listing that shows no user of the image, taken when all containers of the release were released. -/
abbrev Idle (l : Ledger) (targets : Targets) (t : Past) (image : String) : Prop :=
  Afterwards l targets t fun later => ∃ containers, Answered later .listContainers containers ∧ Unused image containers

theorem Idle.mono {image : String} (grows : t <:+ t') (idle : Idle l targets t image) : Idle l targets t' image :=
  Afterwards.mono (fun _ _ seen => seen.imp fun _ h => ⟨h.1.mono fun _ mem => List.mem_append_right _ mem, h.2⟩) grows idle

/-- What a teardown may decide about an entry. -/
inductive Proper (l : Ledger) (targets : Targets) (t : Past) (e : Entry) : Action → Prop where
  | remove {o : Observed} (id : e.id = some o.id) (object : e.key.kind ≠ .portLease)
      (idle : e.key.kind = .image → Idle l targets t o.id) : Proper l targets t e (.remove e.ref o false)
  | refuse {reason : String} : Proper l targets t e (.refuse e.ref reason)
  | markAbsent : Proper l targets t e (.markAbsent e.ref)
  | releaseLease : Proper l targets t e (.releaseLease e.ref)

theorem Proper.about (proper : Proper l targets t e a) : a.target? = some e.ref := by
  cases proper <;> rfl

theorem Proper.mono (grows : t <:+ t') (proper : Proper l targets t e a) : Proper l targets t' e a := by
  cases proper with
  | remove id object idle => exact .remove id object fun image => (idle image).mono grows
  | refuse => exact .refuse
  | markAbsent => exact .markAbsent
  | releaseLease => exact .releaseLease

/-- What carrying out an action about `e` comes to: nothing else changes, and where it is no refusal and all calls succeed
the entry is released. -/
structure Done (l : Ledger) (targets : Targets) (led : Ledger) (t : Past) (e : Entry) (a : Action) (led' : Ledger)
    (t' : Past) : Prop where
  on : led' = acked l t'
  grows : t <:+ t'
  elsewhere : ∀ d k, (d, k) ≠ e.ref → led'.find d k = led.find d k
  released : (∀ reason, a ≠ .refuse e.ref reason) → AllSucceed targets t' → ReleasedIn led' e

theorem done_of_changed {e' : Entry} (on : led' = acked l t') (grows : t <:+ t') (changed : Changed e.ref led led' e')
    (released : (∀ reason, a ≠ .refuse e.ref reason) → AllSucceed targets t' → e'.isReleased = true) :
    Done l targets led t e a led' t' :=
  ⟨on, grows, changed.elsewhere, fun plain all => ⟨e', changed.found, released plain all⟩⟩

/-- An attempt and its result, with nothing asked between them. -/
theorem bracket_tears {outcome : CleanupOutcome} (sound : l.Sound) (on : led = acked l t) (mem : e ∈ targets.unreleased)
    (found : led.find e.deployment e.key = some e) (unsettled : e.isSettled = false) (due : Due l targets t e)
    (plain : Ledger.isConflict outcome = false)
    (released : (∀ reason, a ≠ .refuse e.ref reason) → isGone outcome = true) :
    Meets onPast (engineTearing l targets)
      (attempt e.ref >>= fun _ => settle e.ref outcome >>= fun _ => pure ([] : List Observed))
      (fun _ led' t' => Done l targets led t e a led' t') (fun err _ t' => Lost targets err t') led t := by
  refine meets_bind.mpr ((attempt_tears sound on mem found unsettled due).imp ?_)
  rintro _ led₁ t₁ ⟨on₁, grows₁, first⟩
  refine meets_bind.mpr ((settle_tears sound on₁ mem first.found rfl ?_ (due.mono sound grows₁)).imp ?_)
  · intro conflict
    rw [plain] at conflict
    cases conflict
  · rintro _ led₂ t₂ ⟨on₂, grows₂, second⟩
    refine done_of_changed on₂ (grows₁.trans grows₂) (first.trans second) fun refuses _ => ?_
    exact (Docker.Ledger.isReleased_stateOf ..).trans (released refuses)

theorem executeAction_tears (sound : l.Sound) (on : led = acked l t) (mem : e ∈ targets.unreleased)
    (found : led.find e.deployment e.key = some e) (unsettled : e.isSettled = false) (due : Due l targets t e)
    (proper : Proper l targets t e a) :
    Meets onPast (engineTearing l targets) (executeAction a)
      (fun _ led' t' => Done l targets led t e a led' t') (fun err _ t' => Lost targets err t') led t := by
  cases proper with
  | refuse => exact bracket_tears sound on mem found unsettled due rfl fun other => absurd rfl (other _)
  | markAbsent | releaseLease => exact bracket_tears sound on mem found unsettled due rfl fun _ => rfl
  | @remove o id object idle =>
    refine meets_bind.mpr (meets_bind.mpr ((attempt_tears sound on mem found unsettled due).imp ?_))
    rintro _ led₁ t₁ ⟨on₁, grows₁, first⟩
    refine meets_bind.mpr (meets_get.mpr ?_)
    have there : led₁.find e.ref.1 e.ref.2 = some e.attempted := first.found
    simp only [there]
    refine meets_bind.mpr (meets_ask.mpr ⟨?_, fun answer => ?_⟩)
    · exact ⟨e, mem, o.id, id, rfl, object, on₁ ▸ not_released there unsettled, due.mono sound grows₁,
        fun image => (idle image).mono grows₁⟩
    · have asked : t₁ <:+ onPast t₁ ⟨.removeResource (requestFor e.attempted o.id), answer⟩ := List.suffix_cons _ _
      refine (settle_tears (t := onPast t₁ _) sound on₁ mem there rfl outcomeOf_conflict
        ((due.mono sound grows₁).mono sound asked)).imp ?_
      rintro _ led₂ t₂ ⟨on₂, grows₂, second⟩
      refine done_of_changed on₂ (grows₁.trans (asked.trans grows₂)) (first.trans second) fun _ all => ?_
      have removed : Succeeds targets ⟨.engine (.removeResource _), answer⟩ := all _ (grows₂.subset List.mem_cons_self)
      refine (Docker.Ledger.isReleased_stateOf ..).trans ?_
      rcases removed with rfl | rfl <;> rfl

/-! ## Several actions -/

/-- Entries that a teardown is to act on and that are as they were found. -/
structure Standing (targets : Targets) (led : Ledger) (entries : List Entry) : Prop where
  target : ∀ e ∈ entries, e ∈ targets.unreleased
  found : ∀ e ∈ entries, led.find e.deployment e.key = some e
  unsettled : ∀ e ∈ entries, e.isSettled = false
  apart : (entries.map Entry.ref).Nodup

/-- Nothing changes but these entries. -/
def Apart (entries : List Entry) (led led' : Ledger) : Prop :=
  ∀ d k, (∀ e ∈ entries, (d, k) ≠ e.ref) → led'.find d k = led.find d k

theorem Apart.refl : Apart entries led led := fun _ _ _ => rfl

theorem Apart.trans {led₁ : Ledger} (first : Apart entries led led₁) (second : Apart entries led₁ led') :
    Apart entries led led' := fun d k other => (second d k other).trans (first d k other)

theorem Apart.wider {more : List Entry} (apart : Apart entries led led') (sub : entries ⊆ more) : Apart more led led' :=
  fun d k other => apart d k fun e mem => other e (sub mem)

/-- What is elsewhere is left standing. -/
theorem Standing.frame {others : List Entry} (standing : Standing targets led entries) (apart : Apart others led led')
    (disjoint : ∀ e ∈ entries, ∀ x ∈ others, e.ref ≠ x.ref) : Standing targets led' entries where
  target := standing.target
  found e mem := (apart e.deployment e.key (disjoint e mem)).trans (standing.found e mem)
  unsettled := standing.unsettled
  apart := standing.apart

theorem Standing.tail {rest : List Entry} (standing : Standing targets led (e :: rest)) (apart : Apart [e] led led') :
    Standing targets led' rest := by
  obtain ⟨fresh, nodup⟩ := List.nodup_cons.mp standing.apart
  have rests : Standing targets led rest := {
    target := fun x mem => standing.target x (List.mem_cons_of_mem _ mem)
    found := fun x mem => standing.found x (List.mem_cons_of_mem _ mem)
    unsettled := fun x mem => standing.unsettled x (List.mem_cons_of_mem _ mem)
    apart := nodup }
  refine rests.frame apart fun x mem y single same => fresh ?_
  rw [← List.mem_singleton.mp single, ← same]
  exact List.mem_map_of_mem mem

/-- What carrying out the actions that `f` decides on comes to. -/
structure DoneAll (l : Ledger) (targets : Targets) (f : Entry → Option Action) (entries : List Entry) (led : Ledger)
    (t : Past) (led' : Ledger) (t' : Past) : Prop where
  on : led' = acked l t'
  grows : t <:+ t'
  apart : Apart entries led led'
  released : AllSucceed targets t' → ∀ e ∈ entries, ∀ a, f e = some a → (∀ reason, a ≠ .refuse e.ref reason) →
    ReleasedIn led' e

theorem executeActions_tears {f : Entry → Option Action} (sound : l.Sound) (on : led = acked l t)
    (standing : Standing targets led entries) (due : ∀ e ∈ entries, ∀ a, f e = some a → Due l targets t e)
    (proper : ∀ e ∈ entries, ∀ a, f e = some a → Proper l targets t e a) :
    Meets onPast (engineTearing l targets) (executeActions (entries.filterMap f))
      (fun _ led' t' => DoneAll l targets f entries led t led' t') (fun err _ t' => Lost targets err t') led t := by
  induction entries generalizing led t with
  | nil => exact ⟨on, List.suffix_rfl, .refl, fun _ e mem => absurd mem List.not_mem_nil⟩
  | cons e rest ih =>
    have here := List.mem_cons_self (a := e) (l := rest)
    cases decided : f e with
    | none =>
      rw [List.filterMap_cons_none decided]
      refine (ih on (standing.tail .refl) (fun x mem => due x (List.mem_cons_of_mem _ mem))
        fun x mem => proper x (List.mem_cons_of_mem _ mem)).imp ?_
      rintro _ led' t' done
      refine ⟨done.on, done.grows, done.apart.wider (List.subset_cons_self ..), fun all x mem a is => ?_⟩
      rcases List.mem_cons.mp mem with rfl | mem
      · cases decided.symm.trans is
      · exact done.released all x mem a is
    | some a =>
      rw [List.filterMap_cons_some decided]
      refine meets_bind.mpr ((executeAction_tears sound on (standing.target e here) (standing.found e here)
        (standing.unsettled e here) (due e here a decided) (proper e here a decided)).imp ?_)
      rintro _ led₁ t₁ first
      have one : Apart [e] led led₁ := fun d k other => first.elsewhere d k (other e List.mem_cons_self)
      refine meets_bind.mpr ((ih first.on (standing.tail one)
        (fun x mem b is => (due x (List.mem_cons_of_mem _ mem) b is).mono sound first.grows)
        fun x mem b is => (proper x (List.mem_cons_of_mem _ mem) b is).mono first.grows).imp ?_)
      rintro _ led₂ t₂ done
      refine meets_pure.mpr ⟨done.on, first.grows.trans done.grows, (one.wider ?_).trans (done.apart.wider ?_), ?_⟩
      · exact fun x mem => List.mem_singleton.mp mem ▸ here
      · exact List.subset_cons_self ..
      · intro all x mem b is plain
        rcases List.mem_cons.mp mem with rfl | mem
        · obtain rfl := Option.some.inj (decided.symm.trans is)
          have released := first.released plain (all.mono done.grows)
          rw [first.on] at released
          rw [done.on]
          exact released.mono sound done.grows
        · exact done.released all x mem b is plain

/-! ## The phases -/

/-- A call did not succeed, and so the teardown gave up. No record was refused by the ledger. -/
def GivenUp (targets : Targets) (stop : Stop) (t : Past) : Prop :=
  ((∃ m, stop = .runtime m) ∨ ∃ j, stop = .journal (.journal j)) ∧ ¬ AllSucceed targets t

theorem not_allSucceed {ev : Event StepSig} (mem : ev ∈ t) (failed : ¬ Succeeds targets ev) : ¬ AllSucceed targets t :=
  fun all => failed (all ev mem)

/-- A part of the teardown, by the rule. -/
abbrev Tears {α : Type} (l : Ledger) (targets : Targets) (x : Teardown α) (post : α → Session → Past → Prop) (s : Session)
    (t : Past) : Prop :=
  Meets Past.see (Tearing l targets) x post (fun stop _ t' => GivenUp targets stop t') s t

theorem carry_tears {f : Entry → Option Action} {s : Session} (sound : l.Sound) (on : s.ledger = acked l t)
    (standing : Standing targets s.ledger entries) (due : ∀ e ∈ entries, ∀ a, f e = some a → Due l targets t e)
    (proper : ∀ e ∈ entries, ∀ a, f e = some a → Proper l targets t e a) :
    Tears l targets (carry (entries.filterMap f))
      (fun _ s' t' => DoneAll l targets f entries s.ledger t s'.ledger t') s t := by
  have each : ∀ (op : EngineOp) (t : Past), engineTearing l targets t op →
      (onEngine op).Obeys Past.see (Tearing l targets) (fun answer t' => t' = onPast t ⟨op, answer⟩) t :=
    fun op t allowed => ⟨allowed, fun _ => rfl⟩
  refine meets_bind.mpr (meets_attempt.mpr (meets_zoom.mpr (Meets.via each ?_)))
  refine (executeActions_tears sound on standing due proper).mono ?_ ?_
  · exact fun _ led' t' done => meets_bind.mpr (meets_ofExcept (fun _ _ => done) fun _ h => by cases h)
  · rintro err led' t' ⟨⟨j, rfl⟩, ev, mem, failed⟩
    refine meets_bind.mpr (meets_ofExcept (fun _ h => by cases h) fun x h => ?_)
    cases h
    exact ⟨.inr ⟨j, rfl⟩, not_allSucceed mem failed⟩

/-- What a phase comes to that is to release some entries, and does so where there is hope. -/
structure Phase (l : Ledger) (hope : Prop) (entries : List Entry) (s : Session) (t : Past) (s' : Session) (t' : Past) :
    Prop where
  on : s'.ledger = acked l t'
  grows : t <:+ t'
  apart : Apart entries s.ledger s'.ledger
  released : hope → AllReleased s'.ledger entries

theorem locate_id {observed : List Observed} {o : Observed} (ours : locate e observed = .ours o) : e.id = some o.id := by
  unfold locate at ours
  split at ours
  next => cases ours
  next id is =>
    split at ours
    next o' found =>
      have same : o'.kind = e.key.kind ∧ o'.id = id := by
        have h := List.find?_some found
        rwa [Bool.and_eq_true, decide_eq_true_eq, decide_eq_true_eq] at h
      split at ours
      next => cases ours; rw [is, same.2]
      next => cases ours
    next =>
      split at ours <;> cases ours

/-- What is done about an object that was located. -/
theorem locate_proper {observed : List Observed} (object : e.key.kind ≠ .portLease)
    (idle : e.key.kind = .image → ∀ o, locate e observed = .ours o → Idle l targets t o.id)
    (decided : (locate e observed).action e.ref = some a) : Proper l targets t e a := by
  cases located : locate e observed with
  | ours o =>
    rw [located] at decided
    cases decided
    exact .remove (locate_id located) object fun image => idle image o located
  | mismatch reason => rw [located] at decided; cases decided; exact .refuse
  | absent => rw [located] at decided; cases decided; exact .markAbsent
  | noReceipt => rw [located] at decided; cases decided

/-- What has a receipt is acted on, and refused only where the list has another object in its place. -/
theorem locate_decides (observed : List Observed) (id : e.id.isSome = true) :
    ∃ a, (locate e observed).action e.ref = some a ∧
      ((∀ why, locate e observed ≠ .mismatch why) → ∀ reason, a ≠ .refuse e.ref reason) := by
  cases located : locate e observed with
  | ours o => exact ⟨_, rfl, fun _ _ h => by cases h⟩
  | mismatch reason => exact ⟨_, rfl, fun ok => absurd rfl (ok reason)⟩
  | absent => exact ⟨_, rfl, fun _ _ h => by cases h⟩
  | noReceipt =>
    exfalso
    unfold locate at located
    split at located
    next none => rw [none] at id; cases id
    next =>
      split at located <;> split at located <;> cases located

theorem releasedIn_iff : ReleasedIn led e ↔ (led.find e.deployment e.key).any Entry.isReleased = true := by
  rw [Option.any_eq_true]
  exact Iff.rfl

/-- The containers, one at a time; `rest` is what is left of those that are not released yet. -/
theorem removeContainers_tears {s : Session} {observed : List Observed} {rest : List Entry} (before : List Entry)
    (sound : l.Sound) (on : s.ledger = acked l t) (listed : ⟨.engine .listResources, .ok observed⟩ ∈ t)
    (split : unreleased targets.containers = before ++ rest) (released : AllReleased (acked l t) before)
    (standing : Standing targets s.ledger rest) (kinds : ∀ e ∈ rest, e.key.kind = .container)
    (ids : ∀ e ∈ rest, e.id.isSome = true) :
    Tears l targets (removeContainers (rest.filterMap fun e => (locate e observed).action e.ref))
      (fun _ s' t' => Phase l (AllSucceed targets t') rest s t s' t') s t := by
  induction rest generalizing before s t with
  | nil => exact ⟨on, List.suffix_rfl, .refl, fun _ e mem => absurd mem List.not_mem_nil⟩
  | cons e rest ih =>
    have here : e ∈ e :: rest := List.mem_cons_self
    have later : ∀ x ∈ rest, x ∈ e :: rest := fun x => List.mem_cons_of_mem _
    have kind := kinds e here
    obtain ⟨a, decided, refuses⟩ := locate_decides observed (ids e here)
    have one : Standing targets s.ledger [e] := {
      target := fun x mem => List.mem_singleton.mp mem ▸ standing.target e here
      found := fun x mem => List.mem_singleton.mp mem ▸ standing.found e here
      unsettled := fun x mem => List.mem_singleton.mp mem ▸ standing.unsettled e here
      apart := List.nodup_cons.mpr ⟨List.not_mem_nil, List.nodup_nil⟩ }
    have due : Due l targets t e := by
      unfold Due
      rw [kind]
      exact ⟨before, rest, split, released⟩
    have proper : Proper l targets t e a :=
      locate_proper (fun lease => by rw [kind] at lease; cases lease) (fun image => by rw [kind] at image; cases image)
        decided
    have acted := carry_tears (f := fun _ => some a) sound on one
      (fun x mem b _ => List.mem_singleton.mp mem ▸ due)
      fun x mem b is => by cases is; exact List.mem_singleton.mp mem ▸ proper
    rw [List.filterMap_cons_some (f := fun e => (locate e observed).action e.ref) decided]
    refine meets_bind.mpr (acted.imp ?_)
    rintro _ s₁ t₁ done
    refine meets_bind.mpr (meets_get.mpr ?_)
    have clean : (a.target?.all fun entry => (s₁.ledger.find entry.1 entry.2).any Entry.isReleased) = true ↔
        ReleasedIn s₁.ledger e := by
      rw [proper.about, releasedIn_iff]
      exact Iff.rfl
    have succeeded (all : AllSucceed targets t₁) : ReleasedIn s₁.ledger e := by
      obtain ⟨_, same, known⟩ := all _ (done.grows.subset listed)
      cases same
      exact done.released all e List.mem_cons_self a rfl (refuses (known e (standing.target e here)))
    split
    next yes =>
      have gone : ReleasedIn (acked l t₁) e := done.on ▸ clean.mp yes
      have more : AllReleased (acked l t₁) (before ++ [e]) := by
        intro x mem
        rcases List.mem_append.mp mem with mem | mem
        · exact (released x mem).mono sound done.grows
        · exact List.mem_singleton.mp mem ▸ gone
      refine (ih (before ++ [e]) done.on (done.grows.subset listed) (by rw [split, List.append_assoc]; rfl) more
        (standing.tail done.apart) (fun x mem => kinds x (later x mem)) fun x mem => ids x (later x mem)).imp ?_
      rintro _ s₂ t₂ phase
      refine ⟨phase.on, done.grows.trans phase.grows, (done.apart.wider ?_).trans (phase.apart.wider later), ?_⟩
      · exact fun x mem => List.mem_singleton.mp mem ▸ here
      · intro all x mem
        rcases List.mem_cons.mp mem with rfl | mem
        · rw [phase.on]; exact gone.mono sound phase.grows
        · exact phase.released all x mem
    next no =>
      refine meets_pure.mpr ⟨done.on, done.grows, done.apart.wider ?_, fun all => absurd (clean.mpr (succeeded all)) no⟩
      exact fun x mem => List.mem_singleton.mp mem ▸ here

theorem users_isEmpty {image : String} {containers : List ContainerSummary} :
    (users image containers).isEmpty = true ↔ Unused image containers := by
  rw [users, List.isEmpty_iff, List.map_eq_nil_iff, List.filter_eq_nil_iff]
  refine forall_congr' fun c => forall_congr' fun _ => ?_
  rw [Bool.or_eq_true, decide_eq_true_eq, not_or, String.isEmpty_iff]

/-- An image is removed only where nothing uses it. -/
theorem imageAction_proper {observed : List Observed} {containers : List ContainerSummary} (image : e.key.kind = .image)
    (seen : ∀ id, Unused id containers → Idle l targets t id)
    (decided : planned (imageAction containers observed e) = some a) : Proper l targets t e a := by
  have object : e.key.kind ≠ .portLease := fun lease => by rw [image] at lease; cases lease
  unfold imageAction at decided
  split at decided
  next o located =>
    dsimp only at decided
    split at decided
    next free => cases decided; exact .remove (locate_id located) object fun _ => seen o.id (users_isEmpty.mp free)
    next => cases decided
  next other => exact locate_proper object (fun _ o located => absurd located (other o)) decided

/-- An image with a receipt that nothing uses is acted on. -/
theorem imageAction_decides {observed : List Observed} {containers : List ContainerSummary} (id : e.id.isSome = true)
    (free : ∀ image, e.id = some image → Unused image containers) (known : ∀ why, locate e observed ≠ .mismatch why) :
    ∃ a, planned (imageAction containers observed e) = some a ∧ ∀ reason, a ≠ .refuse e.ref reason := by
  obtain ⟨a, decided, plain⟩ := locate_decides observed id
  refine ⟨a, ?_, plain known⟩
  unfold imageAction
  split
  next o located =>
    rw [located] at decided
    rw [if_pos (users_isEmpty.mpr (free o.id (locate_id located)))]
    exact decided
  next => exact decided

theorem listRuntime_tears {socket : String} {s : Session} {post : List Observed → Session → Past → Prop}
    (ok : ∀ observed, post observed s (⟨.engine .listResources, .ok observed⟩ :: t)) :
    Tears l targets (listRuntime socket) post s t := by
  refine meets_bind.mpr (meets_perform.mpr ⟨trivial, fun listed => ?_⟩)
  refine meets_ofExcept (fun observed h => ?_) fun x h => ?_
  · subst h; exact ok observed
  · subst h
    refine ⟨.inl ⟨_, rfl⟩, not_allSucceed List.mem_cons_self ?_⟩
    rintro ⟨_, same, _⟩
    cases same

theorem removeImages_tears {s : Session} {socket : String} {images : List Entry} (sound : l.Sound)
    (on : s.ledger = acked l t) (gone : AllReleased (acked l t) targets.containers)
    (standing : Standing targets s.ledger images) (own : images ⊆ unreleased targets.images)
    (kinds : ∀ e ∈ images, e.key.kind = .image) (ids : ∀ e ∈ images, e.id.isSome = true) :
    Tears l targets (removeImages socket images) (fun _ s' t' => Phase l (AllSucceed targets t') images s t s' t') s t := by
  refine meets_bind.mpr (listRuntime_tears fun observed => ?_)
  refine meets_bind.mpr (meets_perform.mpr ⟨trivial, fun answer => meets_bind.mpr (meets_ofExcept ?_ ?_)⟩)
  · rintro containers rfl
    refine meets_bind.mpr (meets_modify.mpr (meets_bind.mpr (meets_modify.mpr ?_)))
    rw [List.filterMap_map]
    generalize asked : Past.see (⟨.engine .listResources, .ok observed⟩ :: t) _ = t₂
    have grows : t <:+ t₂ := asked ▸ (List.suffix_cons _ _).trans (List.suffix_cons _ _)
    have same : acked l t₂ = acked l t := asked ▸ rfl
    have seen (id : String) (unused : Unused id containers) : Idle l targets t₂ id := by
      refine ⟨[_, _], t, asked.symm, gone, containers, ⟨t10, List.mem_cons_self⟩, unused⟩
    have due : ∀ e ∈ images, Due l targets t₂ e := by
      intro e mem
      unfold Due
      rw [kinds e mem]
      exact gone.mono sound grows
    refine (carry_tears (s := ⟨s.ledger, s.out ++ _ ++ _⟩) (f := planned ∘ imageAction containers observed) sound
      (on.trans same.symm) standing (fun e mem _ _ => due e mem) fun e mem a decided => imageAction_proper (kinds e mem) seen decided).imp ?_
    rintro _ s' t' done
    refine ⟨done.on, grows.trans done.grows, done.apart, fun all e mem => ?_⟩
    have listed : Succeeds targets ⟨.engine .listResources, .ok observed⟩ :=
      all _ (done.grows.subset (asked ▸ List.mem_cons_of_mem _ List.mem_cons_self))
    have used : Succeeds targets ⟨.host (.api .listContainers t10), .ok containers⟩ :=
      all _ (done.grows.subset (asked ▸ List.mem_cons_self))
    obtain ⟨_, same₁, known⟩ := listed
    obtain ⟨_, same₂, free, _⟩ := used
    cases same₁
    cases same₂
    obtain ⟨a, decided, plain⟩ := imageAction_decides (ids e mem) (free e (own mem)) (known e (standing.target e mem))
    exact done.released all e mem a decided plain
  · rintro x rfl
    refine ⟨.inl ⟨_, rfl⟩, not_allSucceed List.mem_cons_self ?_⟩
    rintro ⟨_, same, _⟩
    cases same

/-- The ports of the listed containers: all that they publish, and of those that do not run all they are configured with. -/
structure Mapped (t : Past) (containers : List ContainerSummary) (ports : List UInt16) : Prop where
  all : ∀ c ∈ containers, (∀ p ∈ c.hostPorts, p ∈ ports) ∧
    (c.state ≠ "running" → ∃ own, Answered t (.configuredHostPorts c.id) own ∧ ∀ p ∈ own, p ∈ ports)
  only : ∀ p ∈ ports, (∃ c ∈ containers, p ∈ c.hostPorts) ∨ ∃ id own, Answered t (.configuredHostPorts id) own ∧ p ∈ own

theorem Mapped.mono {containers : List ContainerSummary} {ports : List UInt16} (grows : t ⊆ t')
    (mapped : Mapped t containers ports) : Mapped t' containers ports where
  all c mem := by
    refine ⟨(mapped.all c mem).1, fun stopped => ?_⟩
    exact ((mapped.all c mem).2 stopped).imp fun own h => ⟨h.1.mono grows, h.2⟩
  only p mem := (mapped.only p mem).imp_right fun ⟨id, own, answered, h⟩ => ⟨id, own, answered.mono grows, h⟩

theorem Mapped.cons {containers : List ContainerSummary} {ports here : List UInt16} {c : ContainerSummary}
    (mapped : Mapped t containers ports) (shown : ∀ p ∈ c.hostPorts, p ∈ here)
    (configured : c.state ≠ "running" → ∃ own, Answered t (.configuredHostPorts c.id) own ∧ ∀ p ∈ own, p ∈ here)
    (whence : ∀ p ∈ here, p ∈ c.hostPorts ∨ ∃ own, Answered t (.configuredHostPorts c.id) own ∧ p ∈ own) :
    Mapped t (c :: containers) (here ++ ports) where
  all x mem := by
    rcases List.mem_cons.mp mem with rfl | mem
    · refine ⟨fun p h => List.mem_append_left _ (shown p h), fun stopped => ?_⟩
      exact (configured stopped).imp fun own h => ⟨h.1, fun p h' => List.mem_append_left _ (h.2 p h')⟩
    · refine ⟨fun p h => List.mem_append_right _ ((mapped.all x mem).1 p h), fun stopped => ?_⟩
      exact ((mapped.all x mem).2 stopped).imp fun own h => ⟨h.1, fun p h' => List.mem_append_right _ (h.2 p h')⟩
  only p mem := by
    rcases List.mem_append.mp mem with mem | mem
    · rcases whence p mem with shown | configured
      · exact .inl ⟨c, List.mem_cons_self, shown⟩
      · exact .inr ⟨c.id, configured⟩
    · rcases mapped.only p mem with ⟨x, there, h⟩ | configured
      · exact .inl ⟨x, List.mem_cons_of_mem _ there, h⟩
      · exact .inr configured

theorem Mapped.unmapped {containers : List ContainerSummary} {ports : List UInt16} {port : UInt16}
    (mapped : Mapped t containers ports) (listed : Answered t .listContainers containers) (free : port ∉ ports) :
    Unmapped t port := by
  refine ⟨containers, listed, fun c mem => ⟨fun shown => free ((mapped.all c mem).1 port shown), fun stopped => ?_⟩⟩
  exact ((mapped.all c mem).2 stopped).imp fun own h => ⟨h.1, fun there => free (h.2 port there)⟩

/-- Docker was asked for ports, and nothing else. -/
structure Looked (l : Ledger) (targets : Targets) (s : Session) (t : Past) (got : Except ApiError (List UInt16))
    (found : Past → List UInt16 → Prop) (s' : Session) (t' : Past) : Prop where
  same : s' = s
  ledger : acked l t' = acked l t
  later : ∃ more, t' = more ++ t ∧ ∀ ports, got = .ok ports → found more ports
  failed : ∀ e, got = .error e → ¬ AllSucceed targets t'

theorem mappedOf_tears {s : Session} (containers : List ContainerSummary) :
    Tears l targets (mappedOf containers) (fun got s' t' => Looked l targets s t got (Mapped · containers) s' t') s t := by
  induction containers generalizing t with
  | nil =>
    refine ⟨rfl, rfl, ⟨[], rfl, fun ports h => ?_⟩, fun _ h => by cases h⟩
    cases h
    exact ⟨fun c mem => absurd mem List.not_mem_nil, fun p mem => absurd mem List.not_mem_nil⟩
  | cons c cs ih =>
    unfold mappedOf
    split
    next running =>
      refine meets_bind.mpr (ih.imp ?_)
      rintro got s' t' ⟨rfl, ledger, ⟨more, rfl, found⟩, failed⟩
      refine meets_pure.mpr ⟨rfl, ledger, ⟨more, rfl, fun ports h => ?_⟩, fun e h => ?_⟩
      · cases got with
        | error e => cases h
        | ok ports' =>
          cases h
          exact (found ports' rfl).cons (fun _ h => h) (fun stopped => absurd running stopped) fun _ h => .inl h
      · cases got with
        | error e => exact failed e rfl
        | ok ports' => cases h
    next stopped =>
      refine meets_bind.mpr (meets_perform.mpr ⟨trivial, fun answer => ?_⟩)
      cases answer with
      | error e =>
        refine meets_pure.mpr ⟨rfl, rfl, ⟨[_], rfl, fun _ h => by cases h⟩, fun _ _ => not_allSucceed List.mem_cons_self ?_⟩
        rintro ⟨_, same, _⟩
        cases same
      | ok own =>
        refine meets_bind.mpr (ih.imp ?_)
        rintro got s' t' ⟨rfl, ledger, ⟨more, rfl, found⟩, failed⟩
        have asked : Answered (more ++ [⟨.host (.api (.configuredHostPorts c.id) t10), .ok own⟩])
            (.configuredHostPorts c.id) own := ⟨t10, List.mem_append_right _ List.mem_cons_self⟩
        refine meets_pure.mpr ⟨rfl, ledger, ⟨more ++ [_], List.append_cons .., fun ports h => ?_⟩, fun e h => ?_⟩
        · cases got with
          | error e => cases h
          | ok ports' =>
            cases h
            refine ((found ports' rfl).mono (List.subset_append_left ..)).cons (fun p h => List.mem_append_left _ h)
              (fun _ => ⟨own, asked, fun p h => List.mem_append_right _ h⟩) fun p mem => ?_
            exact (List.mem_append.mp mem).imp_right fun h => ⟨own, asked, h⟩
        · cases got with
          | error e => exact failed e rfl
          | ok ports' => cases h

theorem publishedPorts_tears {s : Session} :
    Tears l targets publishedPorts (fun got s' t' => Looked l targets s t got
      (fun more ports => ∃ containers, Answered more .listContainers containers ∧ Mapped more containers ports)
        s' t') s t := by
  refine meets_bind.mpr (meets_perform.mpr ⟨trivial, fun answer => ?_⟩)
  cases answer with
  | error e =>
    refine meets_pure.mpr ⟨rfl, rfl, ⟨[_], rfl, fun _ h => by cases h⟩, fun _ _ => not_allSucceed List.mem_cons_self ?_⟩
    rintro ⟨_, same, _⟩
    cases same
  | ok containers =>
    refine (mappedOf_tears containers).imp ?_
    rintro got s' t' ⟨rfl, ledger, ⟨more, rfl, found⟩, failed⟩
    refine ⟨rfl, ledger, ⟨more ++ [_], List.append_cons .., fun ports h => ?_⟩, failed⟩
    exact ⟨containers, ⟨t10, List.mem_append_right _ List.mem_cons_self⟩, (found ports h).mono (List.subset_append_left ..)⟩

theorem leaseAction_left {ports : List UInt16} (decided : (leaseAction ports e).getLeft? = some a) :
    a = .releaseLease e.ref ∧ ∃ port, portOf e = some port ∧ port ∉ ports := by
  unfold leaseAction at decided
  split at decided
  next port name =>
    split at decided
    next => cases decided
    next free =>
      cases decided
      exact ⟨rfl, port, name, fun mem => free (List.contains_iff_mem.mpr mem)⟩
  next => cases decided

theorem leaseAction_free {ports : List UInt16} {port : UInt16} (name : portOf e = some port) (free : port ∉ ports) :
    leaseAction ports e = .inl (.releaseLease e.ref) := by
  unfold portOf at name
  unfold leaseAction
  rw [name]
  exact if_neg fun mem => free (List.contains_iff_mem.mp mem)

/-- Where all calls succeed, no port of a lease is mapped. -/
theorem Mapped.free {containers : List ContainerSummary} {ports : List UInt16} {port : UInt16}
    (mapped : Mapped t containers ports) (listed : Answered t .listContainers containers) (all : AllSucceed targets t)
    (mem : e ∈ unreleased targets.leases) (name : portOf e = some port) : port ∉ ports := by
  intro there
  rcases mapped.only port there with ⟨c, inList, shown⟩ | ⟨id, own, ⟨left, answered⟩, shown⟩
  · obtain ⟨left, answered⟩ := listed
    obtain ⟨_, same, _, free⟩ := all _ answered
    cases same
    exact free e mem port name c inList shown
  · obtain ⟨_, same, free⟩ := all _ answered
    cases same
    exact free e mem port name shown

theorem releaseLeases_tears {s : Session} {leases : List Entry} (sound : l.Sound) (on : s.ledger = acked l t)
    (gone : AllReleased (acked l t) targets.containers) (standing : Standing targets s.ledger leases)
    (own : leases ⊆ unreleased targets.leases) (kinds : ∀ e ∈ leases, e.key.kind = .portLease) :
    Tears l targets (releaseLeases leases)
      (fun problems s' t' =>
        Phase l (AllSucceed targets t' ∧ ∀ e ∈ leases, (portOf e).isSome) leases s t s' t' ∧
        (AllSucceed targets t' → (∀ e ∈ leases, (portOf e).isSome) → problems = [])) s t := by
  refine meets_bind.mpr (publishedPorts_tears.imp ?_)
  rintro got s₁ t₁ ⟨rfl, same, ⟨more, rfl, found⟩, failed⟩
  refine meets_bind.mpr (meets_ofExcept (fun ports h => ?_) fun e h => ⟨.inl ⟨_, rfl⟩, failed e h⟩)
  obtain ⟨containers, listed, mapped⟩ := found ports h
  have grows : t <:+ more ++ t := List.suffix_append ..
  refine meets_bind.mpr (meets_modify.mpr (meets_bind.mpr ?_))
  rw [List.filterMap_map]
  have due : ∀ e ∈ leases, ∀ a, (leaseAction ports e).getLeft? = some a → Due l targets (more ++ t) e := by
    intro e mem a decided
    obtain ⟨_, port, name, free⟩ := leaseAction_left decided
    unfold Due
    rw [kinds e mem]
    exact ⟨port, name, more, t, rfl, gone, mapped.unmapped listed free⟩
  refine (carry_tears (s := ⟨s₁.ledger, s₁.out ++ _⟩) (f := Sum.getLeft? ∘ leaseAction ports) sound (on.trans same.symm)
    standing due fun e mem a decided => (leaseAction_left decided).1 ▸ .releaseLease).imp ?_
  rintro _ s' t' done
  have kept (all : AllSucceed targets t') (e : Entry) (mem : e ∈ leases) (name : (portOf e).isSome) :
      leaseAction ports e = .inl (.releaseLease e.ref) := by
    obtain ⟨port, name⟩ := Option.isSome_iff_exists.mp name
    have before : AllSucceed targets more := fun ev h => all ev (done.grows.subset (List.mem_append_left _ h))
    exact leaseAction_free name (mapped.free listed before (own mem) name)
  refine meets_pure.mpr ⟨⟨done.on, grows.trans done.grows, done.apart, fun ⟨all, names⟩ e mem => ?_⟩, fun all names => ?_⟩
  · refine done.released all e mem (.releaseLease e.ref) ?_ fun _ h => by cases h
    rw [Function.comp_apply, kept all e mem (names e mem)]
    rfl
  · rw [List.filterMap_map, List.filterMap_eq_nil_iff]
    intro e mem
    rw [Function.comp_apply, kept all e mem (names e mem)]
    rfl

/-! ## The targets -/

def Targets.all (t : Targets) : List Entry := t.containers ++ t.images ++ t.leases

/-- A deployment that rolled the application back to the release. -/
def RolledBackTo (dep : DeploymentId) (f : Deployment) : Prop :=
  f.rollbackTo = some (.fromDeployment dep) ∧ f.status = .succeeded

/-- What is torn down, by its reference. -/
def IsTarget (deployments : List Deployment) (dep : DeploymentId) (e : Entry) : Prop :=
  match e.key.kind with
  | .container => e.servesRelease deployments dep = true
  | .image => e.deployment = dep
  | .portLease => e.deployment = dep ∨ ∃ f ∈ deployments, RolledBackTo dep f ∧ e.deployment = f.id

theorem kind_containers {deployments : List Deployment} {dep : DeploymentId}
    (mem : e ∈ (targetsOf l deployments dep).containers) :
    e ∈ l.entries ∧ e.key.kind = .container ∧ e.servesRelease deployments dep = true := by
  obtain ⟨inLedger, is⟩ := List.mem_filter.mp mem
  rw [Bool.and_eq_true, decide_eq_true_eq] at is
  exact ⟨inLedger, is⟩

theorem kind_images {deployments : List Deployment} {dep : DeploymentId} (mem : e ∈ (targetsOf l deployments dep).images) :
    e ∈ l.entries ∧ e.key.kind = .image ∧ e.deployment = dep := by
  obtain ⟨inLedger, is⟩ := List.mem_filter.mp mem
  rw [Bool.and_eq_true, decide_eq_true_eq, decide_eq_true_eq] at is
  exact ⟨inLedger, is.2, is.1⟩

theorem kind_leases {deployments : List Deployment} {dep : DeploymentId} (mem : e ∈ (targetsOf l deployments dep).leases) :
    e ∈ l.entries ∧ e.key.kind = .portLease ∧
      (e.deployment = dep ∨ ∃ f ∈ deployments, RolledBackTo dep f ∧ e.deployment = f.id) := by
  rcases List.mem_append.mp mem with mem | mem
  · obtain ⟨inLedger, is⟩ := List.mem_filter.mp mem
    rw [Bool.and_eq_true, decide_eq_true_eq, decide_eq_true_eq] at is
    exact ⟨inLedger, is.2, .inl is.1⟩
  · obtain ⟨f, there, mem⟩ := List.mem_flatMap.mp mem
    obtain ⟨inLedger, is⟩ := List.mem_filter.mp mem
    obtain ⟨known, rolled⟩ := List.mem_filter.mp there
    rw [Bool.and_eq_true, decide_eq_true_eq, decide_eq_true_eq] at is rolled
    exact ⟨inLedger, is.2, .inr ⟨f, known, rolled, is.1⟩⟩

theorem mem_targetsOf {deployments : List Deployment} {dep : DeploymentId} :
    e ∈ (targetsOf l deployments dep).all ↔ e ∈ l.entries ∧ IsTarget deployments dep e := by
  unfold Targets.all IsTarget
  rw [List.mem_append, List.mem_append]
  constructor
  · rintro ((mem | mem) | mem)
    · obtain ⟨inLedger, kind, is⟩ := kind_containers mem
      rw [kind]
      exact ⟨inLedger, is⟩
    · obtain ⟨inLedger, kind, is⟩ := kind_images mem
      rw [kind]
      exact ⟨inLedger, is⟩
    · obtain ⟨inLedger, kind, is⟩ := kind_leases mem
      rw [kind]
      exact ⟨inLedger, is⟩
  · rintro ⟨inLedger, is⟩
    cases kind : e.key.kind with
    | container =>
      rw [kind] at is
      have serves : e.servesRelease deployments dep = true := is
      exact .inl (.inl (List.mem_filter.mpr ⟨inLedger, by rw [kind, serves]; rfl⟩))
    | image =>
      rw [kind] at is
      exact .inl (.inr (List.mem_filter.mpr ⟨inLedger, by rw [kind, show e.deployment = dep from is]; simp⟩))
    | portLease =>
      rw [kind] at is
      refine .inr (List.mem_append.mpr ?_)
      rcases is with own | ⟨f, known, rolled, own⟩
      · exact .inl (List.mem_filter.mpr ⟨inLedger, by rw [kind, own]; simp⟩)
      · refine .inr (List.mem_flatMap.mpr ⟨f, List.mem_filter.mpr ⟨known, ?_⟩, List.mem_filter.mpr ⟨inLedger, ?_⟩⟩)
        · rw [rolled.1, rolled.2]; simp
        · rw [kind, own]; simp

/-- Each lease is listed once: deployments have distinct ids, and none rolled back to its own release. -/
theorem leases_apart {deployments : List Deployment} {dep : DeploymentId} (sound : l.Sound)
    (ids : Keyed.Unique (·.id) deployments)
    (own : ∀ d ∈ deployments, d.id = dep → d.rollbackTo ≠ some (.fromDeployment dep)) :
    ((targetsOf l deployments dep).leases.map Entry.ref).Nodup := by
  have apart : l.entries.Pairwise fun x y => x.ref ≠ y.ref := List.pairwise_map.mp sound.unique
  have distinct : deployments.Pairwise fun f g => f.id ≠ g.id := List.pairwise_map.mp ids
  refine List.pairwise_map.mpr (List.pairwise_append.mpr ⟨apart.filter _, ?_, ?_⟩)
  · refine List.pairwise_flatMap.mpr ⟨fun f _ => apart.filter _, (distinct.filter _).imp ?_⟩
    intro f g different x memX y memY same
    have isX := (List.mem_filter.mp memX).2
    have isY := (List.mem_filter.mp memY).2
    rw [Bool.and_eq_true, decide_eq_true_eq, decide_eq_true_eq] at isX isY
    exact different (isX.1.symm.trans ((Prod.mk.inj same).1.trans isY.1))
  · intro x memX y memY same
    obtain ⟨f, there, memY⟩ := List.mem_flatMap.mp memY
    obtain ⟨known, rolled⟩ := List.mem_filter.mp there
    have isX := (List.mem_filter.mp memX).2
    have isY := (List.mem_filter.mp memY).2
    rw [Bool.and_eq_true, decide_eq_true_eq, decide_eq_true_eq] at isX isY rolled
    exact own f known (isY.1.symm.trans ((Prod.mk.inj same).1.symm.trans isX.1)) rolled.1

/-! ## From the start to the end -/

theorem unreleased_mem : e ∈ unreleased entries ↔ e ∈ entries ∧ e.isReleased = false := by
  rw [unreleased, List.mem_filter, Bool.not_eq_eq_eq_not, Bool.not_true]

theorem unreleased_targets : e ∈ targets.unreleased ↔ e ∈ targets.all ∧ e.isReleased = false := unreleased_mem

/-- The journal's rules do not refuse where nothing was refused before and every object has a receipt. -/
theorem refusal_none {dep : DeploymentId} :
    targets.refusal dep = none ↔ (∀ e ∈ targets.unreleased, e.isRefused = false) ∧
      ∀ e ∈ targets.containers ++ targets.images, e.isReleased = false → e.id.isSome = true := by
  rw [Targets.refusal, Option.or_eq_none_iff, Option.map_eq_none_iff, Option.map_eq_none_iff, List.find?_eq_none,
    List.find?_eq_none]
  refine and_congr (forall_congr' fun e => forall_congr' fun _ => Bool.eq_false_iff.symm) ?_
  refine forall_congr' fun e => forall_congr' fun _ => ?_
  cases e.isReleased <;> cases e.id <;> simp

/-- What is not released of some targets is as it was found. -/
theorem standing_unreleased (sound : l.Sound) (inLedger : ∀ e ∈ entries, e ∈ l.entries) (part : entries ⊆ targets.all)
    (apart : (entries.map Entry.ref).Nodup) (refused : ∀ e ∈ targets.unreleased, e.isRefused = false) :
    Standing targets l (unreleased entries) where
  target e mem := unreleased_targets.mpr ⟨part (unreleased_mem.mp mem).1, (unreleased_mem.mp mem).2⟩
  found e mem := sound.find_of_mem (inLedger e (unreleased_mem.mp mem).1)
  unsettled e mem := by
    have live := (unreleased_mem.mp mem).2
    have plain := refused e (unreleased_targets.mpr ⟨part (unreleased_mem.mp mem).1, live⟩)
    rw [Entry.isSettled, live, plain]
    rfl
  apart := (List.filter_sublist.map _).nodup apart

/-- What was released stays so, and the rest was seen to. -/
theorem allReleased_of {entries : List Entry} (sound : l.Sound) (inLedger : ∀ e ∈ entries, e ∈ l.entries)
    (rest : AllReleased (acked l t) (unreleased entries)) : AllReleased (acked l t) entries := by
  intro e mem
  cases released : e.isReleased with
  | true => exact ReleasedIn.mono (t := []) sound (List.nil_suffix ..) ⟨e, sound.find_of_mem (inLedger e mem), released⟩
  | false => exact rest e (unreleased_mem.mpr ⟨mem, released⟩)

theorem allReleased_iff : allReleased led entries = true ↔ AllReleased led entries := by
  rw [allReleased, List.all_eq_true]
  exact forall_congr' fun e => forall_congr' fun _ => releasedIn_iff.symm

theorem problemOf_released (released : e.isReleased = true) : problemOf e = none := by
  unfold Entry.isReleased at released
  unfold problemOf
  split at released
  next state => rw [state]
  next => cases released

theorem conclude_tears {deployments : List Deployment} {dep : DeploymentId} {problems : List String} {s : Session} :
    Tears l targets (conclude deployments dep problems)
      (fun exit s' t' => s'.ledger = s.ledger ∧ t' = t ∧
        (problems = [] → (∀ x ∈ (targetsOf s.ledger deployments dep).all, x.isReleased = true) → exit = .ok)) s t := by
  refine meets_bind.mpr (meets_get.mpr ?_)
  dsimp only
  split
  next =>
    split <;> exact meets_bind.mpr (meets_modify.mpr (meets_pure.mpr ⟨rfl, rfl, fun _ _ => rfl⟩))
  next some =>
    refine meets_bind.mpr (meets_modify.mpr (meets_bind.mpr (meets_modify.mpr (meets_pure.mpr ⟨rfl, rfl, ?_⟩))))
    rintro rfl all
    refine absurd ?_ some
    rw [List.nil_append, List.isEmpty_iff, List.filterMap_eq_nil_iff]
    exact fun x mem => problemOf_released (all x mem)

/-- After the three phases every target of the ledger is released, if each target of the start is. -/
theorem targets_released {deployments : List Deployment} {dep : DeploymentId} (sound : led'.Sound)
    (apart : Apart (targetsOf l deployments dep).unreleased l led')
    (released : AllReleased led' (targetsOf l deployments dep).all) :
    ∀ x ∈ (targetsOf led' deployments dep).all, x.isReleased = true := by
  intro x mem
  obtain ⟨inLedger, is⟩ := mem_targetsOf.mp mem
  have there : led'.find x.deployment x.key = some x := sound.find_of_mem inLedger
  by_cases target : ∃ e ∈ (targetsOf l deployments dep).all, e.ref = x.ref
  · obtain ⟨e, mem, same⟩ := target
    obtain ⟨y, found, gone⟩ := released e mem
    obtain ⟨dep', key⟩ := Prod.mk.inj same
    rw [dep', key, there] at found
    cases found
    exact gone
  · have before : l.find x.deployment x.key = some x := by
      rw [← apart x.deployment x.key fun e mem same => ?_]
      · exact there
      · exact target ⟨e, (unreleased_targets.mp mem).1, same.symm⟩
    exact absurd ⟨x, mem_targetsOf.mpr ⟨Ledger.find_mem before, is⟩, rfl⟩ target

/-! ## The teardown -/

/-- Where an applied teardown is to get everything released: each port lease is named by its port, and all calls succeed. -/
def Hopeful (targets : Targets) (t : Past) : Prop :=
  AllSucceed targets t ∧ ∀ e ∈ unreleased targets.leases, (portOf e).isSome = true

theorem Phase.skip {hope : Prop} {s : Session} (on : s.ledger = acked l t) (none : entries = []) :
    Phase l hope entries s t s t :=
  ⟨on, List.suffix_rfl, .refl, fun _ _ mem => absurd (none ▸ mem) List.not_mem_nil⟩

/-- The targets that a teardown acts on, each part standing. -/
structure Ready (l : Ledger) (targets : Targets) : Prop where
  containers : Standing targets l (unreleased targets.containers)
  images : Standing targets l (unreleased targets.images)
  leases : Standing targets l (unreleased targets.leases)
  ids : ∀ e ∈ targets.containers ++ targets.images, e.isReleased = false → e.id.isSome = true

theorem ready_of_refusal {deployments : List Deployment} {dep : DeploymentId} (sound : l.Sound)
    (ids : Keyed.Unique (·.id) deployments)
    (own : ∀ d ∈ deployments, d.id = dep → d.rollbackTo ≠ some (.fromDeployment dep))
    (none : (targetsOf l deployments dep).refusal dep = none) : Ready l (targetsOf l deployments dep) := by
  obtain ⟨plain, receipts⟩ := refusal_none.mp none
  refine ⟨?_, ?_, ?_, receipts⟩
  · refine standing_unreleased sound (fun e mem => (kind_containers mem).1) (fun e mem => ?_)
      ((List.filter_sublist.map _).nodup sound.unique) plain
    exact List.mem_append_left _ (List.mem_append_left _ mem)
  · refine standing_unreleased sound (fun e mem => (kind_images mem).1) (fun e mem => ?_)
      ((List.filter_sublist.map _).nodup sound.unique) plain
    exact List.mem_append_left _ (List.mem_append_right _ mem)
  · refine standing_unreleased sound (fun e mem => (kind_leases mem).1) (fun e mem => ?_)
      (leases_apart sound ids own) plain
    exact List.mem_append_right _ mem

theorem unreleased_part (part : entries ⊆ targets.all) : unreleased entries ⊆ targets.unreleased := fun _ mem =>
  unreleased_targets.mpr ⟨part (unreleased_mem.mp mem).1, (unreleased_mem.mp mem).2⟩

/-- What is said in the end, when the phases are over. -/
theorem closing_tears (deployments : List Deployment) (dep : DeploymentId) (problems : List String) {s : Session}
    (sound : l.Sound) (on : s.ledger = acked l t) (apart : Apart (targetsOf l deployments dep).unreleased l s.ledger)
    (clear : Hopeful (targetsOf l deployments dep) t → problems = [])
    (released : Hopeful (targetsOf l deployments dep) t → AllReleased s.ledger (targetsOf l deployments dep).all) :
    Tears l (targetsOf l deployments dep) (conclude deployments dep problems)
      (fun exit s' t' => s'.ledger = acked l t' ∧ (Hopeful (targetsOf l deployments dep) t' →
        exit = .ok ∧ AllReleased s'.ledger (targetsOf l deployments dep).all)) s t := by
  refine conclude_tears.imp ?_
  rintro exit s' t' ⟨same, rfl, ends⟩
  refine ⟨same.trans on, fun hope => ⟨ends (clear hope) (targets_released ?_ apart (released hope)), ?_⟩⟩
  · exact on ▸ sound_acked sound _
  · exact same ▸ released hope

theorem applyTeardown_tears {socket : String} {deployments : List Deployment} {dep : DeploymentId} {s : Session}
    {observed : List Observed} (sound : l.Sound) (ready : Ready l (targetsOf l deployments dep)) (start : s.ledger = l)
    (on : acked l t = l) (listed : ⟨.engine .listResources, .ok observed⟩ ∈ t) :
    Tears l (targetsOf l deployments dep)
      (applyTeardown socket deployments dep (targetsOf l deployments dep)
        ((unreleased (targetsOf l deployments dep).containers).filterMap fun e => (locate e observed).action e.ref))
      (fun exit s' t' => s'.ledger = acked l t' ∧ (Hopeful (targetsOf l deployments dep) t' →
        exit = .ok ∧ AllReleased s'.ledger (targetsOf l deployments dep).all)) s t := by
  have closing {t : Past} {problems : List String} {s : Session} :=
    closing_tears (t := t) (s := s) deployments dep problems sound
  generalize whole : targetsOf l deployments dep = targets at ready closing
  have kindC : ∀ e ∈ unreleased targets.containers, e.key.kind = .container := fun e mem =>
    (kind_containers (whole ▸ (unreleased_mem.mp mem).1)).2.1
  have kindI : ∀ e ∈ unreleased targets.images, e.key.kind = .image := fun e mem =>
    (kind_images (whole ▸ (unreleased_mem.mp mem).1)).2.1
  have kindL : ∀ e ∈ unreleased targets.leases, e.key.kind = .portLease := fun e mem =>
    (kind_leases (whole ▸ (unreleased_mem.mp mem).1)).2.1
  have differ {x y : Entry} (k : x.key.kind ≠ y.key.kind) : x.ref ≠ y.ref := fun same =>
    k (congrArg ResourceKey.kind (Prod.mk.inj same).2)
  have partC : targets.containers ⊆ targets.all := fun _ mem => List.mem_append_left _ (List.mem_append_left _ mem)
  have partI : targets.images ⊆ targets.all := fun _ mem => List.mem_append_left _ (List.mem_append_right _ mem)
  have partL : targets.leases ⊆ targets.all := fun _ mem => List.mem_append_right _ mem
  have first := removeContainers_tears [] sound (start.trans on.symm) listed rfl
    (fun e mem => absurd mem List.not_mem_nil) (start ▸ ready.containers) kindC fun e mem =>
      ready.ids e (List.mem_append_left _ (unreleased_mem.mp mem).1) (unreleased_mem.mp mem).2
  refine meets_bind.mpr (first.imp ?_)
  rintro notReached s₁ t₁ phase₁
  refine meets_bind.mpr (meets_modify.mpr (meets_bind.mpr (meets_get.mpr ?_)))
  dsimp only
  have apart₁ : Apart targets.unreleased l s₁.ledger := start ▸ phase₁.apart.wider (unreleased_part partC)
  split
  next released =>
    have gone : AllReleased (acked l t₁) targets.containers := phase₁.on ▸ allReleased_iff.mp released
    -- The leases and the end, after the images.
    have rest : ∀ s₂ t₂, Phase l (AllSucceed targets t₂) (unreleased targets.images) s₁ t₁ s₂ t₂ →
        Tears l targets (if (unreleased targets.leases).isEmpty = true then do
            let problems ← pure []
            conclude deployments dep problems
          else do
            let problems ← releaseLeases (unreleased targets.leases)
            conclude deployments dep problems) (fun exit s' t' => s'.ledger = acked l t' ∧
          (Hopeful targets t' → exit = .ok ∧ AllReleased s'.ledger targets.all)) s₂ t₂ := by
      intro s₂ t₂ phase₂
      have apart₂ : Apart targets.unreleased l s₂.ledger := apart₁.trans (phase₂.apart.wider (unreleased_part partI))
      have standing₁ : Standing targets s₁.ledger (unreleased targets.leases) :=
        (start ▸ ready.leases).frame phase₁.apart fun e mem x memX =>
          differ fun k => by rw [kindL e mem, kindC x memX] at k; cases k
      have standing₂ : Standing targets s₂.ledger (unreleased targets.leases) :=
        standing₁.frame phase₂.apart fun e mem x memX =>
          differ fun k => by rw [kindL e mem, kindI x memX] at k; cases k
      have last : ∀ problems s₃ t₃, Phase l (Hopeful targets t₃) (unreleased targets.leases) s₂ t₂ s₃ t₃ →
          (Hopeful targets t₃ → problems = []) → Tears l targets (conclude deployments dep problems)
            (fun exit s' t' => s'.ledger = acked l t' ∧
              (Hopeful targets t' → exit = .ok ∧ AllReleased s'.ledger targets.all)) s₃ t₃ := by
        intro problems s₃ t₃ phase₃ clear
        refine closing phase₃.on (apart₂.trans (phase₃.apart.wider (unreleased_part partL))) clear fun hope e mem => ?_
        rw [phase₃.on]
        rcases List.mem_append.mp mem with mem | mem
        · rcases List.mem_append.mp mem with mem | mem
          · exact (gone e mem).mono sound (phase₂.grows.trans phase₃.grows)
          · refine (allReleased_of sound (fun e mem => (kind_images (whole ▸ mem)).1) ?_ e mem).mono sound phase₃.grows
            exact phase₂.on ▸ phase₂.released (hope.1.mono phase₃.grows)
        · refine allReleased_of sound (fun e mem => (kind_leases (whole ▸ mem)).1) ?_ e mem
          exact phase₃.on ▸ phase₃.released hope
      split
      next none =>
        exact meets_bind.mpr (meets_pure.mpr (last [] s₂ t₂ (.skip phase₂.on (List.isEmpty_iff.mp none)) fun _ => rfl))
      next =>
        refine meets_bind.mpr ((releaseLeases_tears sound phase₂.on (gone.mono sound phase₂.grows) standing₂
          (fun _ mem => mem) kindL).imp ?_)
        rintro problems s₃ t₃ ⟨phase₃, clear⟩
        exact last problems s₃ t₃ phase₃ fun hope => clear hope.1 hope.2
    split
    next none =>
      exact rest ⟨s₁.ledger, _⟩ t₁ ⟨phase₁.on, List.suffix_rfl, .refl, fun _ e mem => by
        rw [List.isEmpty_iff.mp none] at mem
        exact absurd mem List.not_mem_nil⟩
    next =>
      have standing : Standing targets s₁.ledger (unreleased targets.images) :=
        (start ▸ ready.images).frame phase₁.apart fun e mem x memX =>
          differ fun k => by rw [kindI e mem, kindC x memX] at k; cases k
      refine meets_bind.mpr ((removeImages_tears (s := ⟨s₁.ledger, s₁.out ++ _⟩) sound phase₁.on gone standing
        (fun _ mem => mem) kindI ?_).imp ?_)
      · intro e mem
        exact ready.ids e (List.mem_append_right _ (unreleased_mem.mp mem).1) (unreleased_mem.mp mem).2
      · exact fun _ s₂ t₂ phase₂ => rest s₂ t₂ ⟨phase₂.on, phase₂.grows, phase₂.apart, phase₂.released⟩
  next held =>
    refine closing phase₁.on apart₁ (fun hope => absurd (allReleased_iff.mpr ?_) held) fun hope =>
      absurd (allReleased_iff.mpr ?_) held <;>
    · rw [phase₁.on]
      refine allReleased_of sound (fun e mem => (kind_containers (whole ▸ mem)).1) ?_
      exact phase₁.on ▸ phase₁.released hope.1

theorem teardown_tears (socket : String) {deployments : List Deployment} {dep : DeploymentId} {s : Session}
    (sound : l.Sound) (ids : Keyed.Unique (·.id) deployments)
    (own : ∀ d ∈ deployments, d.id = dep → d.rollbackTo ≠ some (.fromDeployment dep)) (start : s.ledger = l) :
    Meets Past.see (Tearing l (targetsOf l deployments dep)) (teardown true socket deployments dep)
      (fun exit s' t' => s'.ledger = acked l t' ∧ (Hopeful (targetsOf l deployments dep) t' →
        exit = .ok ∧ AllReleased s'.ledger (targetsOf l deployments dep).all))
      (fun stop _ t' => (t' = [] ∧ (∃ m, stop = .refused m) ∧
        ((∃ d, deployments.find? (·.id = dep) = some d ∧ d.status = .succeeded) →
          (targetsOf l deployments dep).refusal dep ≠ none)) ∨ GivenUp (targetsOf l deployments dep) stop t') s [] := by
  unfold teardown
  split
  next missing =>
    exact .inl ⟨rfl, ⟨_, rfl⟩, fun ⟨d, found, _⟩ => by cases missing.symm.trans found⟩
  next d found =>
    split
    next other =>
      refine .inl ⟨rfl, ⟨_, rfl⟩, fun ⟨d', found', succeeded⟩ => ?_⟩
      cases found.symm.trans found'
      exact absurd succeeded other
    next =>
      refine meets_bind.mpr (meets_get.mpr ?_)
      rw [start]
      dsimp only
      split
      next done =>
        refine meets_bind.mpr (meets_modify.mpr (meets_pure.mpr ⟨start, fun _ => ⟨rfl, fun e mem => ?_⟩⟩))
        have live : e.isReleased = true := by
          cases released : e.isReleased with
          | true => rfl
          | false =>
            have there : e ∈ (targetsOf l deployments dep).unreleased := unreleased_targets.mpr ⟨mem, released⟩
            rw [List.isEmpty_iff.mp done] at there
            exact absurd there List.not_mem_nil
        exact ⟨e, start ▸ sound.find_of_mem (mem_targetsOf.mp mem).1, live⟩
      next =>
        split
        next why refused =>
          exact .inl ⟨rfl, ⟨_, rfl⟩, fun _ none => by cases refused.symm.trans none⟩
        next none =>
          have ready := ready_of_refusal sound ids own none
          refine meets_bind.mpr ((listRuntime_tears fun observed => ?_).mono (fun _ _ _ h => h) fun _ _ _ h => .inr h)
          refine meets_bind.mpr (meets_modify.mpr (meets_bind.mpr (meets_modify.mpr ?_)))
          exact (applyTeardown_tears (s := ⟨s.ledger, s.out ++ _ ++ _⟩) sound ready start rfl List.mem_cons_self).mono
            (fun _ _ _ h => h) fun _ _ _ h => .inr h

/-- The ledger that a run leaves, by its records. -/
theorem ledgerOf_after {keep : Written → Bool} (records : List LedgerRecord) (t : Past) :
    ledgerOf keep (.after records) t = .after (records ++ t.reverse.filterMap (recordOf keep)) := by
  induction t with
  | nil => rw [List.reverse_nil, List.filterMap_nil, List.append_nil]; rfl
  | cons ev t ih =>
    rw [List.reverse_cons, List.filterMap_append, ← List.append_assoc, ledgerOf]
    cases written : recordOf keep ev with
    | none => simp only [written, List.filterMap_cons, List.filterMap_nil, List.append_nil, ih]
    | some r =>
      simp only [written, List.filterMap_cons, List.filterMap_nil]
      rw [ih]
      simp only [Ledger.after, Ledger.absorb, List.foldl_append]
      rfl

end

/-- What the journal must say for an applied teardown to be carried out: the deployment succeeded, nothing of it was refused
before, and every object has a receipt and every lease a port. -/
structure Dismantlable (deployments : List Deployment) (dep : DeploymentId) (targets : Targets) : Prop where
  succeeded : ∃ d, deployments.find? (·.id = dep) = some d ∧ d.status = .succeeded
  proven : ∀ e ∈ targets.unreleased, e.isRefused = false
  receipts : ∀ e ∈ targets.containers ++ targets.images, e.isReleased = false → e.id.isSome = true
  ports : ∀ e ∈ unreleased targets.leases, (portOf e).isSome = true

/-- **Teardown.** From any ledger, whatever it is answered and wherever it is cut: each operation is by the rule; it ends
early only by a refusal before Docker is asked or by a call that did not succeed, never by a record that the ledger refuses;
and where the journal lets it and all calls succeed everything is released. What the records on the disk make after it is a
ledger to begin from again. -/
theorem teardown_ordered (records : List LedgerRecord) (socket : String) {deployments : List Deployment} {dep : DeploymentId}
    (ids : Keyed.Unique (·.id) deployments)
    (own : ∀ d ∈ deployments, d.id = dep → d.rollbackTo ≠ some (.fromDeployment dep)) {h : History StepSig}
    {p : Program StepSig (Except Stop Exit × Session)}
    (run : Program.Follows ((teardown true socket deployments dep).toProgram ⟨.after records, []⟩) h p) :
    let l := Ledger.after records
    let targets := targetsOf l deployments dep
    (∀ before ev later, h = before ++ ev :: later → Tearing l targets before.reverse ev.op) ∧
    (∀ stop s, p = .done (.error stop, s) →
      (h = [] ∧ ∃ m, stop = .refused m) ∨ GivenUp targets stop h.reverse) ∧
    (∀ result s, p = .done (result, s) → Dismantlable deployments dep targets → AllSucceed targets h.reverse →
      result = .ok .ok ∧ AllReleased s.ledger targets.all) ∧
    ∃ more, stored l h.reverse = .after (records ++ more) := by
  intro l targets
  have obeys := teardown_tears (l := l) socket (s := ⟨l, []⟩) (Ledger.sound_after records) ids own rfl
  refine ⟨?_, ?_, ?_, ⟨_, ledgerOf_after records _⟩⟩
  · rintro before ev later rfl
    have allowed := (obeys.follows run).2.at
    rwa [seen_eq, List.append_nil] at allowed
  · rintro stop s rfl
    have ended := obeys.ended run
    rw [seen_eq, List.append_nil] at ended
    refine ended.imp_left fun ⟨unasked, refused, _⟩ => ⟨List.reverse_eq_nil_iff.mp unasked, refused⟩
  · rintro result s rfl clear all
    have ended := obeys.ended run
    rw [seen_eq, List.append_nil] at ended
    cases result with
    | ok exit =>
      obtain ⟨ok, released⟩ := ended.2 ⟨all, clear.ports⟩
      exact ⟨congrArg _ ok, released⟩
    | error stop =>
      rcases ended with ⟨_, _, refused⟩ | ⟨_, failed⟩
      · exact absurd (refusal_none.mpr ⟨clear.proven, clear.receipts⟩) (refused clear.succeeded)
      · exact absurd all failed

/-! ### A small teardown -/

namespace Dismantled

def app : ApplicationId := ⟨1#128⟩

def dep : DeploymentId := ⟨2#128⟩

def succeeded : Deployment := { Deployment.new dep app .manual 0 with status := .succeeded }

/-- A container and the lease of its port. -/
def stock : List LedgerRecord :=
  [.intent ⟨.portLease, "38000"⟩ app dep .removeOnFailure 1, .intent ⟨.container, "web"⟩ app dep .removeOnFailure 2,
    .receipt ⟨.container, "web"⟩ dep "c1" 3]

def targets : Targets := targetsOf (.after stock) [succeeded] dep

def web : Entry := ⟨⟨.container, "web"⟩, app, dep, .removeOnFailure, some "c1", .created, 0, false, 2⟩

def container (id : String) : Observed :=
  ⟨.container, "web", id, [(Labels.managed, "true"), (Labels.app, app.asStr), (Labels.deployment, dep.asStr)]⟩

/-- Docker lists a container of this id. -/
def listed (id : String) : Event StepSig := ⟨.engine .listResources, .ok [container id]⟩

/-- A record of the cleanup, stored. -/
def recorded (r : LedgerRecord) : List (Event StepSig) :=
  [⟨.engine .nowMs, (9 : Nat)⟩, ⟨.engine (.record r), Written.acknowledged⟩]

def attempted (key : ResourceKey) : List (Event StepSig) := recorded (.cleanupAttempt key dep 9)

def settled (key : ResourceKey) (outcome : CleanupOutcome) : List (Event StepSig) :=
  recorded (.cleanupResult key dep outcome 9)

/-- The container is removed, and then its lease is released. -/
def whole : History StepSig :=
  [listed "c1"] ++ attempted ⟨.container, "web"⟩ ++ [⟨.engine (.removeResource (requestFor web "c1")), .ok .removed⟩] ++
    settled ⟨.container, "web"⟩ .removed ++ [⟨.host (.api .listContainers t10), .ok []⟩] ++
    attempted ⟨.portLease, "38000"⟩ ++ settled ⟨.portLease, "38000"⟩ .removed

def tearing (records : List LedgerRecord) : Program StepSig (Except Stop Exit × Session) :=
  (teardown true "docker.sock" [succeeded] dep).toProgram ⟨.after records, []⟩

def ended : Program StepSig (Except Stop Exit × Session) → Option (Except Stop Exit × Session)
  | .done out => some out
  | .ask _ _ => none

theorem ended_done {p : Program StepSig (Except Stop Exit × Session)} {out : Except Stop Exit × Session}
    (done : ended p = some out) : p = .done out := by
  cases p with
  | done value => cases done; rfl
  | ask op next => cases done

theorem whole_succeeds : AllSucceed targets whole := by
  have known : ∀ e ∈ targets.unreleased, locate e [container "c1"] = .ours (container "c1") ∨
      locate e [container "c1"] = .noReceipt := by decide
  unfold AllSucceed
  simp only [whole, listed, attempted, settled, recorded, List.cons_append, List.nil_append, List.forall_mem_cons]
  refine ⟨⟨_, rfl, fun e mem why mismatch => ?_⟩, trivial, rfl, .inl rfl, trivial, rfl, ⟨[], rfl, ?_, ?_⟩, trivial, rfl,
    trivial, rfl, fun _ mem => absurd mem List.not_mem_nil⟩
  · rcases known e mem with ours | none
    · cases ours.symm.trans mismatch
    · cases none.symm.trans mismatch
  · exact fun _ _ _ _ c mem => absurd mem List.not_mem_nil
  · exact fun _ _ _ _ c mem => absurd mem List.not_mem_nil

end Dismantled

open Dismantled in
theorem teardown_ordered_whole :
    ∃ s, Program.Follows (tearing stock) whole (.done (.ok .ok, s)) ∧ AllReleased s.ledger targets.all := by
  have ran : (((tearing stock).follow whole).bind ended).isSome = true := by decide
  obtain ⟨⟨result, s⟩, found⟩ := Option.isSome_iff_exists.mp ran
  obtain ⟨left, followed, done⟩ := Option.bind_eq_some_iff.mp found
  have follows := Program.follow_follows followed
  rw [ended_done done] at follows
  have ids : Keyed.Unique (·.id) [succeeded] := List.nodup_cons.mpr ⟨List.not_mem_nil, List.nodup_nil⟩
  have ordered := teardown_ordered stock "docker.sock" ids (by decide) follows
  have all : AllSucceed targets whole.reverse := fun ev mem => whole_succeeds ev (List.mem_reverse.mp mem)
  obtain ⟨rfl, released⟩ := ordered.2.2.1 result s rfl ⟨⟨succeeded, rfl, rfl⟩, by decide, by decide, by decide⟩ all
  exact ⟨s, follows, released⟩

namespace Dismantled

def stranger : String := "a container named \"web\" exists but its id is not the recorded c1; it is not touched"

/-- Docker has another container of that name: the entry is recorded as refused. -/
def refusing : History StepSig :=
  [listed "c9"] ++ attempted ⟨.container, "web"⟩ ++ settled ⟨.container, "web"⟩ (.refused stranger)

def refusal : List LedgerRecord :=
  [.cleanupAttempt ⟨.container, "web"⟩ dep 9, .cleanupResult ⟨.container, "web"⟩ dep (.refused stranger) 9]

/-- The teardown was refused. -/
def isRefused : Except Stop Exit × Session → Bool
  | (.error (.refused _), _) => true
  | _ => false

/-- A deployment that is recorded as a rollback to itself: its lease is listed twice. -/
def circular : Deployment := { succeeded with rollbackTo := some (.fromDeployment dep) }

/-- The ledger refused a record. -/
def isUnrecorded : Except Stop Exit × Session → Bool
  | (.error (.journal (.ledger _)), _) => true
  | _ => false

end Dismantled

open Dismantled in
/-- Once an entry was recorded as refused, a repetition refuses as well, though each of its calls, for there is none,
succeeds. And a deployment that rolled back to itself has the ledger refuse a record. -/
theorem stays_refused :
    (∃ s, Program.Follows (tearing stock) refusing (.done (.ok .failed, s))) ∧
    stored (.after stock) refusing.reverse = .after (stock ++ refusal) ∧
    (∃ message s, tearing (stock ++ refusal) = .done (.error (.refused message), s)) ∧
    ¬ AllReleased (.after (stock ++ refusal)) (targetsOf (.after (stock ++ refusal)) [succeeded] dep).all ∧
    ∃ x s, Program.Follows ((teardown true "docker.sock" [circular] dep).toProgram ⟨.after stock, []⟩)
      (whole ++ [⟨.engine .nowMs, (9 : Nat)⟩]) (.done (.error (.journal (.ledger x)), s)) := by
  refine ⟨?_, ?_, ?_, ?_, ?_⟩
  · have ran : ((((tearing stock).follow refusing).bind ended).map fun out => out.1.toOption) = some (some .failed) := by
      decide
    obtain ⟨⟨result, s⟩, found, failed⟩ := Option.map_eq_some_iff.mp ran
    obtain ⟨left, followed, done⟩ := Option.bind_eq_some_iff.mp found
    have follows := Program.follow_follows followed
    have isFailed : result = .ok .failed := Journal.ok_of_toOption failed
    rw [ended_done done, isFailed] at follows
    exact ⟨s, follows⟩
  · exact (ledgerOf_after stock _).trans (congrArg (fun more => Ledger.after (stock ++ more)) (by decide))
  · have refuses : (ended (tearing (stock ++ refusal))).map isRefused = some true := by decide
    obtain ⟨out, done, refused⟩ := Option.map_eq_some_iff.mp refuses
    rw [ended_done done]
    unfold isRefused at refused
    split at refused
    next message s => exact ⟨message, s, rfl⟩
    next => cases refused
  · rw [← allReleased_iff]
    decide
  · have ran : (((((teardown true "docker.sock" [circular] dep).toProgram ⟨.after stock, []⟩).follow
        (whole ++ [⟨.engine .nowMs, (9 : Nat)⟩])).bind ended).map isUnrecorded) = some true := by decide
    obtain ⟨out, found, unrecorded⟩ := Option.map_eq_some_iff.mp ran
    obtain ⟨left, followed, done⟩ := Option.bind_eq_some_iff.mp found
    have follows := Program.follow_follows followed
    rw [ended_done done] at follows
    unfold isUnrecorded at unrecorded
    split at unrecorded
    next x s => exact ⟨x, s, follows⟩
    next => cases unrecorded

end Harpoon.Cli
