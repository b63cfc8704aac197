import Harpoon.Host.PortForward

/-!
# Published ports come to what is desired

The forwarder treats each port by itself: what a sync or an answer does to one port depends on that port alone.
So a forwarder is one small machine for each port, and a sync is followed through on each.

A sync compares routes only. A forward that stays is left on the address it was made with, a start of a relay
that is under way adds what an earlier sync asked for, and a stop that is answered late takes the relay that was
started meanwhile.
-/

namespace Harpoon.Host

open Keyed

/-! ## One port -/

/-- All there is about one port. -/
structure Spot where
  forward : Option Forward
  pending : Bool
  starting : List RelayStart
  stopping : Nat
  relay : Option Relay
  deriving DecidableEq

namespace Spot

def stopRelay (s : Spot) : Spot := { s with stopping := s.stopping + 1 }

def startRelay (s : Spot) (val : Desired) (loopbackIP guestIP : String) : Spot :=
  { s with pending := true, starting := s.starting ++ [⟨val, loopbackIP, guestIP⟩] }

def add (s : Spot) (val : Desired) (guestIP : String) (bound : Bool) : Spot :=
  if bound then { s with forward := some (val.forward guestIP) }
  else if val.route.isLoopback then s.stopRelay
  else s

/-- The forward goes, when its route is not the desired one. -/
def removeStale (want : Option PublishedPortRoute) (f : Forward) (s : Spot) : Spot :=
  if want = some f.route then s
  else if f.route.isLoopback && !(want.any (·.isLoopback)) then { s with forward := none }.stopRelay
  else { s with forward := none }

def addNew (guestIP : String) (binds : UInt16 → Bool) (val : Desired) (s : Spot) : Spot :=
  if s.forward.isSome then s
  else
    match val.route with
    | .guestAddress => s.add val guestIP (binds val.hostPort)
    | .guestLoopback ip => if s.pending = true then s else s.startRelay val ip guestIP
    | .unsupported _ => s

/-- What a sync does first. -/
def cleared (s : Spot) (want : Option Desired) : Spot :=
  s.forward.elim s fun f => s.removeStale (want.map (·.route)) f

/-- What a sync does. -/
def reconcile (s : Spot) (want : Option Desired) (guestIP : String) (binds : UInt16 → Bool) : Spot :=
  want.elim (s.cleared want) fun val => (s.cleared want).addNew guestIP binds val

def answered (s : Spot) (start : RelayStart) (failed : Bool) : Spot :=
  { s with
    pending := false
    starting := s.starting.erase start
    relay := if failed then none else some ⟨start.desired.hostPort, start.loopbackIP⟩ }

def relayStarted (s : Spot) (start : RelayStart) (failed bound : Bool) : Spot :=
  if failed || s.forward.isSome then s.answered start failed
  else (s.answered start failed).add start.desired start.guestIP bound

def relayStopped (s : Spot) (failed : Bool) : Spot :=
  { s with stopping := s.stopping - 1, relay := if failed then s.relay else none }

end Spot

namespace PortForwardManager

def spot (m : PortForwardManager) (port : UInt16) : Spot where
  forward := m.forwards.find port
  pending := m.pendingRelays.contains port
  starting := m.starting.filter fun s => s.desired.hostPort = port
  stopping := m.stopping.count port
  relay := m.relays.find port

section

variable {m : PortForwardManager} {port p : UInt16} {val : Desired} {guestIP loopbackIP : String}
    {desired : DesiredPorts}
  {f : Forward} {bound : Bool} {binds : UInt16 → Bool} {start : RelayStart} {failed : Bool}

/-! ### Each operation on its own port, and on the others -/

theorem spot_stopRelay : (m.stopRelay port).spot p = if p = port then (m.spot p).stopRelay else m.spot p := by
  unfold stopRelay spot
  by_cases same : p = port
  · subst same
    rw [if_pos rfl]
    simp [Spot.stopRelay]
  · rw [if_neg same]
    simp [List.count_append, Ne.symm same]

theorem spot_startRelay : (m.startRelay val loopbackIP guestIP).spot p =
    if p = val.hostPort then (m.spot p).startRelay val loopbackIP guestIP else m.spot p := by
  unfold startRelay spot
  by_cases same : p = val.hostPort
  · subst same
    rw [if_pos rfl]
    simp [Spot.startRelay]
  · rw [if_neg same]
    simp [same, Ne.symm same]

theorem spot_insert : ({ m with forwards := m.forwards.insert f } : PortForwardManager).spot p =
    if p = f.hostPort then { m.spot p with forward := some f } else m.spot p := by
  unfold spot
  rw [Table.find_insert]
  by_cases same : p = f.hostPort
  · rw [if_pos same, if_pos same.symm]
  · rw [if_neg same, if_neg (Ne.symm same)]

theorem find_remove {α : Type} {key : α → UInt16} {t : Table key} :
    (t.remove port).find p = if p = port then none else t.find p := by
  by_cases same : p = port
  · subst same
    rw [if_pos rfl, Table.find_remove_self]
  · rw [if_neg same, Table.remove, Table.find_keep, if_pos (by simpa using same)]

theorem spot_remove : ({ m with forwards := m.forwards.remove port } : PortForwardManager).spot p =
    if p = port then { m.spot p with forward := none } else m.spot p := by
  unfold spot
  rw [find_remove]
  by_cases same : p = port
  · rw [if_pos same, if_pos same]
  · rw [if_neg same, if_neg same]

theorem spot_add : (m.add val guestIP bound).spot p =
    if p = val.hostPort then (m.spot p).add val guestIP bound else m.spot p := by
  unfold add Spot.add
  cases bound with
  | true => exact spot_insert
  | false =>
    simp only [Bool.false_eq_true, if_false]
    cases val.route.isLoopback with
    | true => exact spot_stopRelay
    | false => exact (ite_self _).symm

theorem spot_removeStale : (removeStale desired m f).spot p =
    if p = f.hostPort then (m.spot p).removeStale (routeOf desired f.hostPort) f else m.spot p := by
  unfold removeStale Spot.removeStale
  dsimp only
  split
  · exact (ite_self _).symm
  · split
    · rw [spot_stopRelay, spot_remove]
      by_cases same : p = f.hostPort
      · simp only [if_pos same]
      · simp only [if_neg same]
    · exact spot_remove

theorem spot_addNew : (addNew guestIP binds m val).spot p =
    if p = val.hostPort then (m.spot p).addNew guestIP binds val else m.spot p := by
  by_cases same : p = val.hostPort
  · subst same
    rw [if_pos rfl]
    unfold addNew Spot.addNew
    by_cases stands : (m.forwards.find val.hostPort).isSome = true
    · rw [if_pos stands, if_pos (show (m.spot val.hostPort).forward.isSome = true from stands)]
    · rw [if_neg stands, if_neg (show ¬(m.spot val.hostPort).forward.isSome = true from stands)]
      cases val.route with
      | guestAddress => exact spot_add.trans (if_pos rfl)
      | guestLoopback ip =>
        dsimp only
        by_cases waits : val.hostPort ∈ m.pendingRelays
        · rw [if_pos waits, if_pos (show (m.spot val.hostPort).pending = true from List.contains_iff_mem.mpr waits)]
        · rw [if_neg waits, spot_startRelay, if_pos rfl, if_neg]
          exact fun pending => waits (List.contains_iff_mem.mp pending)
      | unsupported reason => rfl
  · rw [if_neg same]
    unfold addNew
    split
    · rfl
    · cases val.route with
      | guestAddress => exact spot_add.trans (if_neg same)
      | guestLoopback ip =>
        dsimp only
        split
        · rfl
        · exact spot_startRelay.trans (if_neg same)
      | unsupported reason => rfl

/-- A sync of one port. -/
theorem spot_reconcile :
    (m.reconcile desired guestIP binds).spot p = (m.spot p).reconcile (desired.find p) guestIP binds := by
  have removes : ∀ m (f : Forward) p, (removeStale desired m f).spot p =
      if p = f.hostPort then Spot.removeStale (routeOf desired f.hostPort) f (m.spot p) else m.spot p :=
    fun _ _ _ => spot_removeStale
  have adds : ∀ m (val : Desired) p, (addNew guestIP binds m val).spot p =
      if p = val.hostPort then Spot.addNew guestIP binds val (m.spot p) else m.spot p :=
    fun _ _ _ => spot_addNew
  have cleared : (m.forwards.rows.foldl (removeStale desired) m).spot p = (m.spot p).cleared (desired.find p) := by
    refine (foldl_lookup (fun f _ m p => removes m f p) m.forwards.unique m).trans ?_
    show (m.forwards.find p).elim _ _ = (m.forwards.find p).elim _ _
    cases found : m.forwards.find p with
    | none => rfl
    | some f =>
      dsimp only [Option.elim_some]
      rw [routeOf, Table.key_of_find found]
  refine (foldl_lookup (fun val _ m p => adds m val p) desired.unique _).trans ?_
  rw [cleared]
  rfl

theorem spot_answered : (m.answered start failed).spot p =
    if p = start.desired.hostPort then (m.spot p).answered start failed else m.spot p := by
  unfold answered Spot.answered spot
  by_cases same : p = start.desired.hostPort
  · subst same
    rw [if_pos rfl, List.erase_filter]
    cases failed with
    | true => simp [find_remove]
    | false => simp [Table.find_insert]
  · rw [if_neg same]
    have others : (m.starting.erase start).filter (fun s => s.desired.hostPort = p) =
        m.starting.filter fun s => s.desired.hostPort = p := by
      rw [← List.erase_filter, List.erase_of_not_mem]
      simp [Ne.symm same]
    rw [others]
    cases failed with
    | true => simp [find_remove, same]
    | false => simp [Table.find_insert, same, Ne.symm same]

theorem spot_relayStarted : (m.relayStarted start failed bound).spot p =
    if p = start.desired.hostPort then (m.spot p).relayStarted start failed bound else m.spot p := by
  unfold relayStarted Spot.relayStarted
  by_cases same : p = start.desired.hostPort
  · subst same
    rw [if_pos rfl]
    show _ = if failed || (m.forwards.find start.desired.hostPort).isSome then _ else _
    split
    · exact spot_answered.trans (if_pos rfl)
    · rw [spot_add, if_pos rfl, spot_answered, if_pos rfl]
  · rw [if_neg same]
    split
    · exact spot_answered.trans (if_neg same)
    · rw [spot_add, if_neg same]
      exact spot_answered.trans (if_neg same)

theorem spot_relayStopped : (m.relayStopped port failed).spot p =
    if p = port then (m.spot p).relayStopped failed else m.spot p := by
  unfold relayStopped spot Spot.relayStopped
  by_cases same : p = port
  · subst same
    rw [if_pos rfl, List.count_erase_self]
    cases failed with
    | true => rfl
    | false => simp only [Bool.false_eq_true, if_false, Table.find_remove_self]
  · rw [if_neg same, List.count_erase_of_ne same]
    cases failed with
    | true => rfl
    | false => simp only [Bool.false_eq_true, if_false, find_remove, if_neg same]

end

end PortForwardManager

/-! ## What holds of a port in every run -/

namespace Spot

/-- What holds of a port whatever was answered. `due` is a start that the sync under way is about to ask for. -/
structure Sound (due : Prop) (s : Spot) : Prop where
  pending : s.pending = true → ∃ start, s.starting = [start] ∧ start.desired.route = .guestLoopback start.loopbackIP
  idle : s.pending = false → s.starting = []
  waits : s.pending = true → s.forward = none
  relay : s.relay.isSome = true →
    (∃ f ip, s.forward = some f ∧ f.route = .guestLoopback ip) ∨ 0 < s.stopping ∨ s.pending = true ∨ due
  loopback : ∀ f ip, s.forward = some f → f.route = .guestLoopback ip → s.relay = some ⟨f.hostPort, ip⟩

variable {s : Spot} {want : Option Desired} {val : Desired} {guestIP : String} {binds : UInt16 → Bool} {due : Prop}
  {start : RelayStart} {failed bound : Bool} {f : Forward}

theorem isLoopback_iff {route : PublishedPortRoute} : route.isLoopback = true ↔ ∃ ip, route = .guestLoopback ip := by
  cases route <;> simp [PublishedPortRoute.isLoopback]

/-- A start that is under way is the only one. -/
theorem Sound.only (sound : s.Sound due) (asked : start ∈ s.starting) :
    s.pending = true ∧ s.starting = [start] ∧ start.desired.route = .guestLoopback start.loopbackIP := by
  cases pending : s.pending with
  | false => rw [sound.idle pending] at asked; cases asked
  | true =>
    obtain ⟨only, starting, route⟩ := sound.pending pending
    rw [starting, List.mem_singleton] at asked
    subst asked
    exact ⟨rfl, starting, route⟩

theorem Sound.quiet (sound : s.Sound due) (none : s.starting = []) : s.pending = false := by
  cases pending : s.pending with
  | false => rfl
  | true =>
    obtain ⟨_, starting, _⟩ := sound.pending pending
    cases none.symm.trans starting

theorem Sound.of_due (sound : s.Sound due) (no : ¬due) : s.Sound False where
  pending := sound.pending
  idle := sound.idle
  waits := sound.waits
  relay runs := (sound.relay runs).imp_right (.imp_right (.imp_right no))
  loopback := sound.loopback

/-- A port without a forward is sound as far as its starts are, and its relay has a reason to run. -/
theorem Sound.without (sound : s.Sound due) {due' : Prop} {stopping : Nat}
    (reason : s.relay.isSome = true → 0 < stopping ∨ s.pending = true ∨ due') :
    Sound due' { s with forward := none, stopping := stopping } where
  pending := sound.pending
  idle := sound.idle
  waits _ := rfl
  relay runs := .inr (reason runs)
  loopback _ _ stands := by cases stands

theorem Sound.cleared (sound : s.Sound False) : (s.cleared want).Sound
    ((s.cleared want).forward = none ∧ (want.map (·.route)).any (·.isLoopback) = true) := by
  unfold Spot.cleared
  cases stands : s.forward with
  | none => exact { sound with relay := fun runs => (sound.relay runs).imp_right (.imp_right (.imp_right False.elim)) }
  | some f =>
    dsimp only [Option.elim_some]
    unfold Spot.removeStale
    split
    · exact { sound with relay := fun runs => (sound.relay runs).imp_right (.imp_right (.imp_right False.elim)) }
    · split
      · exact sound.without fun _ => .inl (Nat.succ_pos _)
      · next other =>
        refine sound.without fun runs => ?_
        rcases sound.relay runs with ⟨f', ip, stands', route⟩ | stops | pending | no
        · -- The relay of the forward that went: the start that follows replaces it.
          rw [stands, Option.some.injEq] at stands'
          subst stands'
          refine .inr (.inr ⟨rfl, ?_⟩)
          simpa [isLoopback_iff.mpr ⟨ip, route⟩] using other
        · exact .inl stops
        · exact .inr (.inl pending)
        · exact no.elim

theorem Sound.addNew (sound : s.Sound (s.forward = none ∧ val.route.isLoopback = true))
    (free : val.route = .guestAddress → s.pending = false) : (s.addNew guestIP binds val).Sound False := by
  unfold Spot.addNew
  by_cases stands : s.forward.isSome = true
  · rw [if_pos stands]
    exact sound.of_due fun due => by rw [due.1] at stands; cases stands
  · rw [if_neg stands]
    have none : s.forward = none := by simpa using stands
    cases route : val.route with
    | guestAddress =>
      have sound := sound.of_due fun due => by rw [route] at due; cases due.2
      dsimp only
      unfold Spot.add
      split
      · exact {
          pending := fun pending => by rw [free route] at pending; cases pending
          idle := sound.idle
          waits := fun pending => by rw [free route] at pending; cases pending
          relay :=
            fun runs => (sound.relay runs).imp_left fun ⟨_, _, stands', _⟩ => by rw [none] at stands'; cases stands'
          loopback := fun f ip same loopback => by
            cases same
            exact absurd (route.symm.trans loopback) nofun }
      · rw [route, if_neg (by simp [PublishedPortRoute.isLoopback])]
        exact sound
    | guestLoopback ip =>
      dsimp only
      split
      · next pending => exact { sound with relay := fun _ => .inr (.inr (.inl pending)) }
      · next quiet =>
        have quiet : s.pending = false := by simpa using quiet
        exact {
          pending := fun _ => ⟨⟨val, ip, guestIP⟩, by simp [startRelay, sound.idle quiet], route⟩
          idle := fun pending => by cases pending
          waits := fun _ => none
          relay := fun _ => .inr (.inr (.inl rfl))
          loopback := sound.loopback }
    | unsupported reason => exact sound.of_due fun due => by rw [route] at due; cases due.2

theorem Sound.reconcile (sound : s.Sound False)
    (free : ∀ val, want = some val → val.route = .guestAddress → s.pending = false) :
    (s.reconcile want guestIP binds).Sound False := by
  have pending : (s.cleared want).pending = s.pending := by
    unfold Spot.cleared
    cases s.forward with
    | none => rfl
    | some f =>
      dsimp only [Option.elim_some]
      unfold Spot.removeStale
      split
      · rfl
      · split <;> rfl
  unfold Spot.reconcile
  cases want with
  | none => exact sound.cleared.of_due fun due => by cases due.2
  | some val => exact sound.cleared.addNew fun route => pending.trans (free val rfl route)

theorem Sound.relayStarted (sound : s.Sound False) (asked : start ∈ s.starting) :
    (s.relayStarted start failed bound).Sound False := by
  obtain ⟨pending, starting, route⟩ := sound.only asked
  have none := sound.waits pending
  have erased : s.starting.erase start = [] := by rw [starting, List.erase_cons_head]
  have bare : ∀ relay stopping, (relay.isSome = true → 0 < stopping) →
      (⟨s.forward, false, s.starting.erase start, stopping, relay⟩ : Spot).Sound False := fun relay stopping reason => {
    pending := fun pending => by cases pending
    idle := fun _ => erased
    waits := fun pending => by cases pending
    relay := fun runs => .inr (.inl (reason runs))
    loopback := fun _ _ stands => by rw [none] at stands; cases stands }
  unfold Spot.relayStarted
  rw [none, Option.isSome_none, Bool.or_false]
  cases failed with
  | true => exact bare _ _ fun runs => by cases runs
  | false =>
    simp only [Bool.false_eq_true, if_false]
    unfold Spot.add
    cases bound with
    | true => exact {
        pending := fun pending => by cases pending
        idle := fun _ => erased
        waits := fun pending => by cases pending
        relay := fun _ => .inl ⟨_, _, rfl, route⟩
        loopback := fun f ip stands loopback => by
          cases stands
          cases route.symm.trans loopback
          rfl }
    | false =>
      rw [if_neg Bool.false_ne_true, if_pos (isLoopback_iff.mpr ⟨_, route⟩)]
      exact bare _ _ fun _ => Nat.succ_pos _

theorem Sound.relayStopped (sound : s.Sound False) (fit : failed = false)
    (bare : s.forward.all (!·.route.isLoopback) = true) :
    (s.relayStopped failed).Sound False where
  pending := sound.pending
  idle := sound.idle
  waits := sound.waits
  relay runs := by
    subst fit
    cases runs
  loopback f ip stands route := by
    have stands : s.forward = some f := stands
    rw [stands, Option.all_some, route] at bare
    cases bare

/-! ## After the last sync -/

/-- Where the forward of a port that is wanted on the guest's address leads after a sync. -/
def addressAfter (s : Spot) (guestIP : String) : String :=
  s.forward.elim guestIP fun f => if f.route = .guestAddress then f.guestIP else guestIP

/-- The port has the forward that is wanted, or waits for the relay of it. -/
structure Settling (want : Option Desired) (current : Option String) (s : Spot) : Prop where
  unwanted : want = none → s.forward = none
  wanted : ∀ val, want = some val → s.pending = true ∨
    ∃ f, s.forward = some f ∧ f.route = val.route ∧ (f.route = .guestAddress → current = some f.guestIP)
  starts : ∀ start ∈ s.starting, want.map (·.route) = some start.desired.route

variable {current : Option String}

/-- The first half of a sync leaves a forward on the wanted route, and leaves the starts. -/
theorem cleared_cases (s : Spot) (want : Option Desired) :
    ((s.cleared want).forward = none ∧ (∀ f, s.forward = some f → want.map (·.route) ≠ some f.route) ∨
      s.cleared want = s ∧ ∃ f, s.forward = some f ∧ want.map (·.route) = some f.route) ∧
    (s.cleared want).pending = s.pending ∧ (s.cleared want).starting = s.starting := by
  unfold cleared
  cases stands : s.forward with
  | none => exact ⟨.inl ⟨stands, nofun⟩, rfl, rfl⟩
  | some f =>
    dsimp only [Option.elim_some]
    unfold removeStale
    by_cases same : want.map (·.route) = some f.route
    · rw [if_pos same]
      exact ⟨.inr ⟨rfl, f, rfl, same⟩, rfl, rfl⟩
    · rw [if_neg same]
      have other : ∀ g, some f = some g → want.map (·.route) ≠ some g.route := fun g eq => by cases eq; exact same
      split
      · exact ⟨.inl ⟨rfl, other⟩, rfl, rfl⟩
      · exact ⟨.inl ⟨rfl, other⟩, rfl, rfl⟩

theorem Settling.reconcile (starts : ∀ start ∈ s.starting, want.map (·.route) = some start.desired.route)
    (address : ∀ val, want = some val → val.route = .guestAddress → current = some (s.addressAfter guestIP))
    (bind : ∀ val, want = some val → binds val.hostPort = true)
    (usable : ∀ val, want = some val → ∀ reason, val.route ≠ .unsupported reason) :
    (s.reconcile want guestIP binds).Settling want current := by
  obtain ⟨cleared, pending, starting⟩ := s.cleared_cases want
  unfold Spot.reconcile
  rw [← starting] at starts
  cases want with
  | none =>
    rcases cleared with ⟨none, _⟩ | ⟨_, _, _, route⟩
    · exact ⟨fun _ => none, nofun, starts⟩
    · cases route
  | some val =>
    have wants : some val = some val := rfl
    dsimp only [Option.elim_some]
    unfold Spot.addNew
    rcases cleared with ⟨none, other⟩ | ⟨same, f, stands, route⟩
    · rw [none, if_neg (by simp)]
      cases route : val.route with
      | guestAddress =>
        dsimp only
        unfold Spot.add
        rw [if_pos (bind val rfl)]
        refine ⟨nofun, fun val' same => .inr ⟨_, rfl, ?_, fun _ => ?_⟩, starts⟩
        · cases same; rfl
        · rw [address val rfl route, addressAfter]
          cases stands : s.forward with
          | none => rfl
          | some f =>
            have other : f.route ≠ .guestAddress := fun eq => other f stands (by rw [eq, ← route]; rfl)
            dsimp only [Option.elim_some]
            rw [if_neg other]
            rfl
      | guestLoopback ip =>
        dsimp only
        split
        · next waits => exact ⟨nofun, fun _ _ => .inl waits, starts⟩
        · refine ⟨nofun, fun _ _ => .inl rfl, fun start mem => ?_⟩
          rcases List.mem_append.mp mem with mem | mem
          · exact starts start mem
          · rw [List.mem_singleton.mp mem]
            rfl
      | unsupported reason => exact absurd route (usable val rfl reason)
    · rw [same] at starts ⊢
      rw [if_pos (by rw [stands, Option.isSome_some])]
      have route : val.route = f.route := Option.some.inj route
      refine ⟨nofun, fun val' eq => .inr ⟨f, stands, ?_, fun on => ?_⟩, starts⟩
      · cases eq; exact route.symm
      · rw [address val rfl (route.trans on), addressAfter, stands, Option.elim_some, if_pos on]

theorem Settling.relayStarted (settling : s.Settling want current) (sound : s.Sound False)
    (asked : start ∈ s.starting) :
    (s.relayStarted start false true).Settling want current := by
  obtain ⟨pending, starting, route⟩ := sound.only asked
  have wanted := settling.starts start asked
  unfold Spot.relayStarted
  rw [sound.waits pending]
  refine ⟨fun no => ?_, fun val eq => .inr ⟨_, rfl, ?_, fun on => ?_⟩, fun other mem => ?_⟩
  · rw [no] at wanted; cases wanted
  · rw [eq] at wanted
    exact (Option.some.inj wanted).symm
  · cases route.symm.trans on
  · have erased : other ∈ s.starting.erase start := mem
    rw [starting, List.erase_cons_head] at erased
    cases erased

theorem Settling.relayStopped (settling : s.Settling want current) : (s.relayStopped failed).Settling want current :=
  ⟨settling.unwanted, settling.wanted, settling.starts⟩

/-- With no start pending, a wanted port has its forward. -/
theorem Settling.forward (settling : s.Settling want current) (quiet : s.pending = false) (wants : want = some val) :
    ∃ f, s.forward = some f ∧ f.route = val.route ∧ (f.route = .guestAddress → current = some f.guestIP) := by
  rcases settling.wanted val wants with pending | found
  · rw [quiet] at pending
    cases pending
  · exact found

/-- A port with a forward is wanted. -/
theorem Settling.wants (settling : s.Settling want current) (stands : s.forward = some f) : ∃ val, want = some val := by
  cases wants : want with
  | some val => exact ⟨val, rfl⟩
  | none => cases (settling.unwanted wants).symm.trans stands

theorem Settling.isSome (settling : s.Settling want current) (quiet : s.pending = false) :
    s.forward.isSome = want.isSome := by
  cases wants : want with
  | none => exact congrArg Option.isSome (settling.unwanted wants)
  | some val =>
    obtain ⟨f, stands, _⟩ := settling.forward quiet wants
    rw [stands]
    rfl

/-- With no operation pending, the relay that runs is the one of the forward to the loopback. -/
theorem Sound.relay_iff (sound : s.Sound False) (quiet : s.pending = false) (stopped : s.stopping = 0) {port : UInt16}
    {ip : String}
    (own : ∀ f, s.forward = some f → f.hostPort = port) :
    s.relay = some ⟨port, ip⟩ ↔ ∃ f, s.forward = some f ∧ f.route = .guestLoopback ip := by
  constructor
  · intro runs
    rcases sound.relay (by rw [runs, Option.isSome_some]) with ⟨f, ip', stands, route⟩ | stops | pending | no
    · cases runs.symm.trans (sound.loopback f ip' stands route)
      exact ⟨f, stands, route⟩
    · rw [stopped] at stops
      cases stops
    · rw [quiet] at pending
      cases pending
    · exact no.elim
  · rintro ⟨f, stands, route⟩
    rw [sound.loopback f ip stands route, own f stands]

end Spot

/-! ## The forwarder -/

namespace PortForwardManager

/-- Events that happen one after the other, each where it is allowed. -/
inductive Run (allowed : PortForwardManager → Event → Prop) (m : PortForwardManager) : PortForwardManager → Prop where
  | refl : Run allowed m m
  | step {m' m'' : PortForwardManager} {e : Event} (run : Run allowed m m') (fits : allowed m' e)
      (next : m'.step e = some m'') : Run allowed m m''

variable {m m' : PortForwardManager} {e : Event} {published : List Desired} {ip : String} {binds : UInt16 → Bool}
    {port : UInt16}

/-- No sync wants a port on the guest's address while a start is under way for it, no stop fails, and none is
answered for a port with a forward to the loopback. -/
def Fit (m : PortForwardManager) : Event → Prop
  | .synced published _ =>
    ∀ start ∈ m.starting, routeOf (desiredOf published) start.desired.hostPort ≠ some .guestAddress
  | .relayStopped hostPort failed => failed = false ∧ (m.forwards.find hostPort).all (!·.route.isLoopback) = true
  | .address _ | .syncStarted | .syncFailed | .relayStarted _ _ _ => True

instance : Decidable (m.Fit e) := by
  cases e <;> unfold Fit <;> infer_instance

/-- What holds of every port. -/
def Sound (m : PortForwardManager) : Prop := ∀ port, (m.spot port).Sound False

theorem sound_new : Sound new := fun _ => ⟨nofun, fun _ => rfl, nofun, nofun, nofun⟩

theorem spot_syncStarted : m.syncStarted.spot port = m.spot port := by
  unfold syncStarted
  split <;> rfl

theorem mem_spot_starting {start : RelayStart} (mem : start ∈ m.starting) :
    start ∈ (m.spot start.desired.hostPort).starting :=
  List.mem_filter.mpr ⟨mem, decide_eq_true rfl⟩

theorem mem_starting {start : RelayStart} (mem : start ∈ (m.spot port).starting) :
    start ∈ m.starting ∧ start.desired.hostPort = port :=
  (List.mem_filter.mp mem).imp_right of_decide_eq_true

/-- A port is not wanted on the guest's address while a start is under way for it. -/
theorem quiet_of_fit (sound : m.Sound) (fit : m.Fit (.synced published binds)) {val : Desired}
    (want : (desiredOf published).find port = some val) (route : val.route = .guestAddress) :
    (m.spot port).pending = false := by
  refine (sound port).quiet (List.eq_nil_iff_forall_not_mem.mpr fun start mem => ?_)
  obtain ⟨mem, own⟩ := mem_starting mem
  exact fit start mem (by rw [routeOf, own, want, Option.map_some, route])

theorem sound_synced (sound : m.Sound) (fit : m.Fit (.synced published binds)) :
    (m.synced ip published binds).Sound := by
  intro port
  show ((m.reconcile (desiredOf published) ip binds).spot port).Sound False
  rw [spot_reconcile]
  exact (sound port).reconcile fun _ want route => quiet_of_fit sound fit want route

theorem sound_relayStarted {start : RelayStart} {failed bound : Bool} (sound : m.Sound) (asked : start ∈ m.starting) :
    (m.relayStarted start failed bound).Sound := by
  intro port
  rw [spot_relayStarted]
  split
  · next own => exact (sound port).relayStarted (own ▸ mem_spot_starting asked)
  · exact sound port

theorem sound_relayStopped {hostPort : UInt16} {failed : Bool} (sound : m.Sound)
    (fit : m.Fit (.relayStopped hostPort failed)) :
    (m.relayStopped hostPort failed).Sound := by
  intro port
  rw [spot_relayStopped]
  split
  · next own => exact (sound port).relayStopped fit.1 (own ▸ fit.2)
  · exact sound port

/-- One step. -/
theorem sound_step (sound : m.Sound) (fit : m.Fit e) (next : m.step e = some m') : m'.Sound := by
  cases e with
  | address ip => cases next; exact sound
  | syncStarted =>
    cases next
    intro port
    rw [spot_syncStarted]
    exact sound port
  | syncFailed =>
    obtain ⟨_, _, rfl⟩ := Option.map_eq_some_iff.mp next
    exact sound
  | synced published binds =>
    obtain ⟨ip, _, rfl⟩ := Option.map_eq_some_iff.mp next
    exact sound_synced sound fit
  | relayStarted start failed bound =>
    obtain ⟨asked, same⟩ := Option.ite_none_right_eq_some.mp next
    cases same
    exact sound_relayStarted sound asked
  | relayStopped hostPort failed =>
    obtain ⟨_, same⟩ := Option.ite_none_right_eq_some.mp next
    cases same
    exact sound_relayStopped sound fit

/-- A whole run. -/
theorem Run.sound (run : Run Fit new m) : m.Sound := by
  induction run with
  | refl => exact sound_new
  | step _ fit next ih => exact sound_step ih fit next

/-! ### The last sync -/

/-- Every start under way is for the route that is wanted, and every forward that leads to the guest's address
after the sync leads to the current one. -/
structure Timely (m : PortForwardManager) (desired : DesiredPorts) : Prop where
  starts : ∀ start ∈ m.starting, routeOf desired start.desired.hostPort = some start.desired.route
  address : ∀ val ∈ desired.rows, val.route = .guestAddress →
    m.guestIP = m.syncInFlight.map (m.spot val.hostPort).addressAfter

/-- What may come after the last sync: a start that succeeds and binds its port, a stop, and a sync that has no
container list yet or never gets one. -/
def Completes : Event → Prop
  | .relayStarted _ failed bound => failed = false ∧ bound = true
  | .relayStopped _ _ | .syncStarted | .syncFailed => True
  | .address _ | .synced _ _ => False

/-- The active forwards are those desired, on the desired route and the current address, and the relays those of
the forwards to the loopback. A connection on the loopback route uses no address of the guest. -/
structure Converged (desired : DesiredPorts) (m : PortForwardManager) : Prop where
  active : ∀ port, (m.forwards.find port).isSome = (desired.find port).isSome
  route : ∀ {port f val}, m.forwards.find port = some f → desired.find port = some val → f.route = val.route
  address : ∀ {port f}, m.forwards.find port = some f → f.route = .guestAddress → m.guestIP = some f.guestIP
  relays :
    ∀ port ip, m.relays.find port = some ⟨port, ip⟩ ↔ ∃ f, m.forwards.find port = some f ∧ f.route = .guestLoopback ip

/-- No operation of a relay is pending. -/
def Idle (m : PortForwardManager) : Prop := m.starting = [] ∧ m.stopping = []

/-- What is desired can be forwarded. -/
theorem usable_desiredOf {val : Desired} (mem : val ∈ (desiredOf published).rows) (reason : String) :
    val.route ≠ .unsupported reason := by
  suffices all : ∀ (t : DesiredPorts), (∀ v ∈ t.rows, v.route ≠ .unsupported reason) →
      ∀ v ∈ (published.foldl want t).rows, v.route ≠ .unsupported reason from
    all .empty (fun _ mem => by cases mem) val mem
  clear mem
  intro t usable
  induction published generalizing t with
  | nil => exact usable
  | cons p published ih =>
    refine ih (want t p) fun v mem => ?_
    unfold want at mem
    split at mem
    · exact usable v mem
    · next route =>
      rcases Table.mem_insert mem with rfl | mem
      · rw [route]; nofun
      · exact usable v mem
    · next route =>
      rcases Table.mem_insert mem with rfl | mem
      · rw [route]; nofun
      · exact usable v mem

theorem settling_synced (began : m.syncInFlight = some ip) (timely : m.Timely (desiredOf published))
    (bind : ∀ val ∈ (desiredOf published).rows, binds val.hostPort = true) (port : UInt16) :
    ((m.synced ip published binds).spot port).Settling ((desiredOf published).find port) m.guestIP := by
  show ((m.reconcile (desiredOf published) ip binds).spot port).Settling _ _
  rw [spot_reconcile]
  refine .reconcile (fun start mem => ?_) (fun val want route => ?_) (fun val want => bind val (Table.mem_of_find want))
    fun val want => usable_desiredOf (Table.mem_of_find want)
  · obtain ⟨mem, own⟩ := mem_starting mem
    rw [← own]
    exact timely.starts start mem
  · rw [timely.address val (Table.mem_of_find want) route, began, Table.key_of_find want]
    rfl

theorem guestIP_foldl {α : Type} {g : PortForwardManager → α → PortForwardManager}
    (same : ∀ m x, (g m x).guestIP = m.guestIP)
    (xs : List α) (m : PortForwardManager) : (xs.foldl g m).guestIP = m.guestIP := by
  induction xs generalizing m with
  | nil => rfl
  | cons x xs ih => exact (ih _).trans (same m x)

theorem guestIP_add {val : Desired} {bound : Bool} : (m.add val ip bound).guestIP = m.guestIP := by
  unfold add
  split
  · rfl
  · split <;> rfl

theorem guestIP_synced : (m.synced ip published binds).guestIP = m.guestIP := by
  refine (guestIP_foldl (fun m val => ?_) _ _).trans (guestIP_foldl (fun m f => ?_) _ _)
  · unfold addNew
    split
    · rfl
    · split
      · exact guestIP_add
      · split <;> rfl
      · rfl
  · unfold removeStale
    split
    · rfl
    · dsimp only
      split <;> rfl

/-- What holds after the last sync, until the relays have answered. -/
def Settling (desired : DesiredPorts) (current : Option String) (m : PortForwardManager) : Prop :=
  m.guestIP = current ∧ ∀ port, (m.spot port).Settling (desired.find port) current

theorem settling_step {desired : DesiredPorts} {current : Option String} (sound : m.Sound)
    (settling : m.Settling desired current)
    (completes : Completes e) (next : m.step e = some m') : m'.Settling desired current := by
  obtain ⟨address, settling⟩ := settling
  cases e with
  | address ip => cases completes
  | synced published binds => cases completes
  | syncStarted =>
    cases next
    refine ⟨?_, fun port => spot_syncStarted.symm ▸ settling port⟩
    unfold syncStarted
    split
    · exact address
    · exact address
  | syncFailed =>
    obtain ⟨_, _, rfl⟩ := Option.map_eq_some_iff.mp next
    exact ⟨address, settling⟩
  | relayStarted start failed bound =>
    obtain ⟨asked, same⟩ := Option.ite_none_right_eq_some.mp next
    obtain ⟨rfl, rfl⟩ := completes
    cases same
    refine ⟨?_, fun port => ?_⟩
    · unfold relayStarted add
      split <;> exact address
    · rw [spot_relayStarted]
      split
      · next own => exact (settling port).relayStarted (sound port) (own ▸ mem_spot_starting asked)
      · exact settling port
  | relayStopped hostPort failed =>
    obtain ⟨_, same⟩ := Option.ite_none_right_eq_some.mp next
    cases same
    refine ⟨address, fun port => ?_⟩
    rw [spot_relayStopped]
    split
    · exact (settling port).relayStopped
    · exact settling port

theorem Run.settling {desired : DesiredPorts} {current : Option String} (sound : m.Sound)
    (settling : m.Settling desired current)
    (run : Run (fun m e => m.Fit e ∧ Completes e) m m') : m'.Sound ∧ m'.Settling desired current := by
  induction run with
  | refl => exact ⟨sound, settling⟩
  | step _ fits next ih =>
    exact ⟨sound_step ih.1 fits.1 next, settling_step ih.1 ih.2 fits.2 next⟩

theorem converged_of_idle {desired : DesiredPorts} (sound : m.Sound) (settling : m.Settling desired m.guestIP)
    (idle : m.Idle) :
    Converged desired m := by
  have quiet : ∀ port, (m.spot port).pending = false := fun port => (sound port).quiet (by simp [spot, idle.1])
  have stopped : ∀ port, (m.spot port).stopping = 0 := fun port => by simp [spot, idle.2]
  refine {
    active := fun port => (settling.2 port).isSome (quiet port)
    route := fun {port f val} stands want => ?_
    address := fun {port f} stands on => ?_
    relays :=
      fun port ip => (sound port).relay_iff (quiet port) (stopped port) fun _ stands => Table.key_of_find stands }
  · obtain ⟨g, stands', route, _⟩ := (settling.2 port).forward (quiet port) want
    cases stands.symm.trans stands'
    exact route
  · obtain ⟨val, want⟩ := (settling.2 port).wants stands
    obtain ⟨g, stands', _, address⟩ := (settling.2 port).forward (quiet port) want
    cases stands.symm.trans stands'
    exact address on

/-- **Published ports converge**, in a run whose syncs and stops come when they fit, once a last sync that is
timely has bound its ports and every relay has answered. -/
theorem ports_converge {synced settled : PortForwardManager} (run : Run Fit new m)
    (timely : m.Timely (desiredOf published))
    (last : m.step (.synced published binds) = some synced)
    (bind : ∀ val ∈ (desiredOf published).rows, binds val.hostPort = true)
    (rest : Run (fun m e => m.Fit e ∧ Completes e) synced settled) (idle : settled.Idle) :
    Converged (desiredOf published) settled := by
  obtain ⟨ip, began, rfl⟩ := Option.map_eq_some_iff.mp last
  have sound := run.sound
  have fit : m.Fit (.synced published binds) := by
    intro start mem on
    obtain ⟨_, _, route⟩ := (sound _).only (mem_spot_starting mem)
    rw [timely.starts start mem, route] at on
    cases on
  have begun : (m.synced ip published binds).Settling (desiredOf published) m.guestIP :=
    ⟨guestIP_synced, settling_synced began timely bind⟩
  obtain ⟨sound', settling⟩ := Run.settling (sound_synced sound fit) begun rest
  exact converged_of_idle sound' (settling.1 ▸ settling) idle

/-! ### A relay that is replaced, and an address that changes -/

instance : Decidable (Completes e) := by
  cases e <;> unfold Completes <;> infer_instance

/-- Let events happen, as far as they are allowed. -/
def follow (allowed : PortForwardManager → Event → Prop) [∀ m e, Decidable (allowed m e)] (events : List Event)
    (m : PortForwardManager) : Option PortForwardManager :=
  events.foldlM (fun m e => if allowed m e then m.step e else none) m

theorem run_of_follow {allowed : PortForwardManager → Event → Prop} [∀ m e, Decidable (allowed m e)]
    {events : List Event}
    {start : PortForwardManager} (so : Run allowed start m) (follows : follow allowed events m = some m') :
    Run allowed start m' := by
  induction events generalizing m with
  | nil => cases follows; exact so
  | cons e events ih =>
    obtain ⟨next, first, rest⟩ := Option.bind_eq_some_iff.mp follows
    obtain ⟨fits, steps⟩ := Option.ite_none_right_eq_some.mp first
    exact ih (so.step fits steps) rest

namespace Rehearsal

def web : Desired := ⟨8080, 80, "c0ffee", "web", .guestAddress⟩

def db : Desired := ⟨5432, 5432, "d0d0", "db", .guestLoopback "127.0.0.1"⟩

def all : UInt16 → Bool := fun _ => true

/-- A port on the loopback is forwarded through its relay; then a sync begins. -/
def relayed : List Event :=
  [.address (some "192.168.64.2"), .syncStarted, .synced [db] all,
    .relayStarted ⟨db, "127.0.0.1", "192.168.64.2"⟩ false true,
    .syncStarted]

/-- The address changes under a forward; then a sync begins. -/
def moved : List Event :=
  [.address (some "192.168.64.2"), .syncStarted, .synced [web] all, .address (some "192.168.64.3"), .syncStarted]

def atSync (events : List Event) : PortForwardManager := (follow (fun _ _ => True) events new).getD new

def afterSync (events : List Event) : PortForwardManager := ((atSync events).step (.synced [web] all)).getD new

def stopped : PortForwardManager := ((afterSync relayed).step (.relayStopped 5432 false)).getD new

end Rehearsal

open Rehearsal in
/-- The relay goes with its forward, and the other port is forwarded. -/
theorem ports_converge_relayed : Converged (desiredOf [web]) stopped :=
  ports_converge (run_of_follow .refl (show follow Fit relayed new = some (atSync relayed) by decide))
    ⟨by decide, by decide⟩
    (show (atSync relayed).step (.synced [web] all) = some (afterSync relayed) by decide) (by decide)
    (.step .refl
      (show (afterSync relayed).Fit (.relayStopped 5432 false) ∧ Completes (.relayStopped 5432 false) by decide)
      (show (afterSync relayed).step (.relayStopped 5432 false) = some stopped by decide))
    (by unfold Idle; decide)

open Rehearsal in
/-- A forward that stays keeps the address that the guest had. -/
theorem moved_address_kept :
    ¬ ∀ (m synced settled : PortForwardManager) (published : List Desired) (binds : UInt16 → Bool),
    Run (fun _ _ => True) new m → m.step (.synced published binds) = some synced →
    (∀ val ∈ (desiredOf published).rows, binds val.hostPort = true) →
    Run (fun _ e => Completes e) synced settled → settled.Idle → Converged (desiredOf published) settled := by
  intro converge
  have converged := converge (atSync moved) (afterSync moved) (afterSync moved) [web] all
    (run_of_follow .refl (show follow _ moved new = some (atSync moved) by decide))
    (by decide) (by decide) .refl (by unfold Idle; decide)
  have kept : (afterSync moved).forwards.find 8080 = some (web.forward "192.168.64.2") := by decide
  have address := converged.address kept rfl
  exact absurd address (by decide)

end PortForwardManager

end Harpoon.Host
