import Harpoon.Keyed.Table

/-!
# Published ports

The forwarder of published ports (`PortForwardManager.swift`): one listener on the host for each published port.
A port that is bound on the guest's network address is reached there. A port that is bound on the guest's
loopback only is reached through a relay in the guest, which is started and stopped through the management
channel and answers later.

A forward's key names the host's loopback address, the port and tcp, so here it is the port. The port in the
guest is the same port.
-/

namespace Harpoon.Host

open Keyed

/-- How a published port is reached from the host. -/
inductive PublishedPortRoute where
  | guestAddress
  | guestLoopback (ip : String)
  /-- Cannot be forwarded. -/
  | unsupported (reason : String)
  deriving DecidableEq, Repr

def PublishedPortRoute.isLoopback : PublishedPortRoute → Bool
  | .guestLoopback _ => true
  | .guestAddress | .unsupported _ => false

structure Desired where
  hostPort : UInt16
  containerPort : UInt16
  containerId : String
  containerName : String
  route : PublishedPortRoute
  deriving DecidableEq, Repr

/-- A listener. A connection that is accepted goes to the address or, on the loopback route, to the relay. -/
structure Forward where
  hostPort : UInt16
  containerPort : UInt16
  containerId : String
  containerName : String
  guestIP : String
  route : PublishedPortRoute
  deriving DecidableEq, Repr

def Desired.forward (d : Desired) (guestIP : String) : Forward :=
  ⟨d.hostPort, d.containerPort, d.containerId, d.containerName, guestIP, d.route⟩

/-- A start of a relay that has not answered, and the forward that is added when it does. -/
structure RelayStart where
  desired : Desired
  loopbackIP : String
  guestIP : String
  deriving DecidableEq, Repr

structure Relay where
  hostPort : UInt16
  loopbackIP : String
  deriving DecidableEq, Repr

abbrev DesiredPorts := Table Desired.hostPort

structure PortForwardManager where
  guestIP : Option String
  /-- A sync that waits for the container list, and the guest's address when it began. -/
  syncInFlight : Option String
  forwards : Table Forward.hostPort
  pendingRelays : List UInt16
  starting : List RelayStart
  /-- The ports whose relay is being stopped, once for each stop. -/
  stopping : List UInt16
  /-- The relays that are believed to run, by what was answered. -/
  relays : Table Relay.hostPort
  deriving DecidableEq

namespace PortForwardManager

def new : PortForwardManager := ⟨none, none, .empty, [], [], [], .empty⟩

def stopRelay (m : PortForwardManager) (hostPort : UInt16) : PortForwardManager :=
  { m with stopping := m.stopping ++ [hostPort] }

def startRelay (m : PortForwardManager) (val : Desired) (loopbackIP guestIP : String) : PortForwardManager :=
  { m with
    pendingRelays := m.pendingRelays ++ [val.hostPort]
    starting := m.starting ++ [⟨val, loopbackIP, guestIP⟩] }

/-- Listen on the port, if it can be bound. Where it cannot, no unused relay is left behind. -/
def add (m : PortForwardManager) (val : Desired) (guestIP : String) (bound : Bool) : PortForwardManager :=
  if bound then { m with forwards := m.forwards.insert (val.forward guestIP) }
  else if val.route.isLoopback then m.stopRelay val.hostPort
  else m

def routeOf (desired : DesiredPorts) (hostPort : UInt16) : Option PublishedPortRoute :=
  (desired.find hostPort).map (·.route)

/-- Remove a forward that is no longer desired, or whose route changed. -/
def removeStale (desired : DesiredPorts) (m : PortForwardManager) (f : Forward) : PortForwardManager :=
  if routeOf desired f.hostPort = some f.route then m
  else
    let removed := { m with forwards := m.forwards.remove f.hostPort }
    -- The start that replaces a relay stops the old one itself.
    if f.route.isLoopback && !((routeOf desired f.hostPort).any (·.isLoopback)) then removed.stopRelay f.hostPort
    else removed

/-- Add what is desired and not there. -/
def addNew (guestIP : String) (binds : UInt16 → Bool) (m : PortForwardManager) (val : Desired) : PortForwardManager :=
  if (m.forwards.find val.hostPort).isSome then m
  else
    match val.route with
    | .guestAddress => m.add val guestIP (binds val.hostPort)
    -- There is no listener until the relay is up.
    | .guestLoopback ip => if val.hostPort ∈ m.pendingRelays then m else m.startRelay val ip guestIP
    | .unsupported _ => m

def reconcile (m : PortForwardManager) (desired : DesiredPorts) (guestIP : String) (binds : UInt16 → Bool) :
    PortForwardManager :=
  desired.rows.foldl (addNew guestIP binds) (m.forwards.rows.foldl (removeStale desired) m)

/-- Ask for a published port, unless it cannot be forwarded. -/
def want (t : DesiredPorts) (p : Desired) : DesiredPorts :=
  match p.route with
  | .unsupported _ => t
  | .guestAddress | .guestLoopback _ => t.insert p

/-- What the container list asks for. -/
def desiredOf (published : List Desired) : DesiredPorts := published.foldl want .empty

/-- What is recorded when a start answers. One that failed leaves no relay: its script stops the old one first. -/
def answered (m : PortForwardManager) (start : RelayStart) (failed : Bool) : PortForwardManager :=
  { m with
    pendingRelays := m.pendingRelays.filter (· ≠ start.desired.hostPort)
    starting := m.starting.erase start
    relays := if failed then m.relays.remove start.desired.hostPort
      else m.relays.insert ⟨start.desired.hostPort, start.loopbackIP⟩ }

/-- A start of a relay answered. -/
def relayStarted (m : PortForwardManager) (start : RelayStart) (failed bound : Bool) : PortForwardManager :=
  if failed || (m.forwards.find start.desired.hostPort).isSome then m.answered start failed
  else (m.answered start failed).add start.desired start.guestIP bound

/-- A stop of a relay answered. One that failed is only logged. -/
def relayStopped (m : PortForwardManager) (hostPort : UInt16) (failed : Bool) : PortForwardManager :=
  { m with
    stopping := m.stopping.erase hostPort
    relays := if failed then m.relays else m.relays.remove hostPort }

/-! ## Events -/

inductive Event where
  /-- The guest's address became known, changed, or went away. -/
  | address (ip : Option String)
  | syncStarted
  /-- The container list could not be read. -/
  | syncFailed
  /-- The container list came, and these ports could be bound. -/
  | synced (published : List Desired) (binds : UInt16 → Bool)
  | relayStarted (start : RelayStart) (failed bound : Bool)
  | relayStopped (hostPort : UInt16) (failed : Bool)

/-- A sync begins when none waits and the guest's address is known. -/
def syncStarted (m : PortForwardManager) : PortForwardManager :=
  match m.syncInFlight, m.guestIP with
  | none, some ip => { m with syncInFlight := some ip }
  | _, _ => m

def syncFailed (m : PortForwardManager) : PortForwardManager := { m with syncInFlight := none }

def synced (m : PortForwardManager) (ip : String) (published : List Desired) (binds : UInt16 → Bool) :
    PortForwardManager :=
  (m.reconcile (desiredOf published) ip binds).syncFailed

/-- What an event does, when it can happen. -/
def step (m : PortForwardManager) : Event → Option PortForwardManager
  | .address ip => some { m with guestIP := ip }
  | .syncStarted => some m.syncStarted
  | .syncFailed => m.syncInFlight.map fun _ => m.syncFailed
  | .synced published binds => m.syncInFlight.map fun ip => m.synced ip published binds
  | .relayStarted start failed bound => if start ∈ m.starting then some (m.relayStarted start failed bound) else none
  | .relayStopped hostPort failed => if hostPort ∈ m.stopping then some (m.relayStopped hostPort failed) else none

end PortForwardManager

end Harpoon.Host
