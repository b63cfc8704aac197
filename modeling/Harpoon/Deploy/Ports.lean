import Harpoon.Deploy.Ledger
import Harpoon.Wire.Number

/-!
# Port leases

A lease is a reservation recorded in the ledger before use (`ports.rs`). A port is taken when something
on the host listens on it, when Docker maps it, or when the ledger holds an unreleased lease of it.
After a collision one replacement is offered, never a second.
-/

namespace Harpoon.Deploy

/-- Port numbers held by an unreleased lease. -/
def Ledger.leasedPorts (l : Ledger) : List UInt16 :=
  (l.entries.filter fun e => e.key.kind = .portLease && !e.isReleased).filterMap fun e =>
    (Wire.parseUnsigned 10 65535 e.key.name).map UInt16.ofNat

namespace Ports

inductive Purpose where
  | application
  | test
  deriving DecidableEq, Repr

def Purpose.debug : Purpose → String
  | .application => "Application"
  | .test => "Test"

/-- Both ends belong to the range. -/
structure PortRange where
  start : UInt16
  last : UInt16
  deriving DecidableEq, Repr

def PortRange.applications : PortRange := ⟨38000, 38999⟩

def PortRange.tests : PortRange := ⟨39000, 39099⟩

def PortRange.forPurpose : Purpose → PortRange
  | .application => .applications
  | .test => .tests

def PortRange.contains (r : PortRange) (p : UInt16) : Bool := r.start ≤ p && p ≤ r.last

def PortRange.size (r : PortRange) : Nat := (r.last - r.start).toNat + 1

/-- A host port bound for `containerPort`. -/
structure PortLease where
  hostPort : UInt16
  containerPort : UInt16
  purpose : Purpose
  deriving DecidableEq, Repr

/-- Everything known to be taken. -/
structure Occupancy where
  hostListeners : List UInt16
  /-- Host ports of the mappings Docker has, of running containers and of stopped ones. -/
  dockerMappings : List UInt16
  journaledLeases : List UInt16
  deriving DecidableEq, Repr

def Occupancy.withLedger (o : Occupancy) (l : Ledger) : Occupancy :=
  { o with journaledLeases := o.journaledLeases ++ l.leasedPorts }

inductive Taken where
  | hostListener
  | dockerMapping
  | journaledLease
  deriving DecidableEq, Repr

def Occupancy.taken (o : Occupancy) (p : UInt16) : Option Taken :=
  if o.hostListeners.contains p then some .hostListener
  else if o.dockerMappings.contains p then some .dockerMapping
  else if o.journaledLeases.contains p then some .journaledLease
  else none

inductive PortError where
  /-- Every port of the range is taken. -/
  | exhausted (r : PortRange)
  /-- A replacement was used already. -/
  | collisionRepeated (first second : UInt16)
  deriving DecidableEq, Repr

def PortError.display : PortError → String
  | .exhausted r => s!"no free port in {r.start}–{r.last}"
  | .collisionRepeated first second => s!"ports {first} and {second} both collided; not trying again"

/-- The `i`-th port of a search of the range that begins at `first`. -/
def PortRange.nth (r : PortRange) (first : UInt16) (i : Nat) : UInt16 :=
  r.start + UInt16.ofNat ((first - r.start).toNat + i) % UInt16.ofNat r.size

/-- The lowest free port at or after `hint`, wrapping, with the ports of `exclude` left out. -/
def allocate (purpose : Purpose) (containerPort : UInt16) (occ : Occupancy) (hint : Option UInt16)
    (exclude : List UInt16) : Except PortError PortLease :=
  let r := PortRange.forPurpose purpose
  let first := (hint.filter r.contains).getD r.start
  match ((List.range r.size).map (r.nth first)).find? fun p => (occ.taken p).isNone && !exclude.contains p with
  | some p => .ok ⟨p, containerPort, purpose⟩
  | none => .error (.exhausted r)

/-- The one replacement after a reported collision. -/
def reallocateAfterCollision (prev : PortLease) (alreadyReplaced : Option UInt16) (occ : Occupancy) :
    Except PortError PortLease :=
  match alreadyReplaced with
  | some first => .error (.collisionRepeated first prev.hostPort)
  | none => allocate prev.purpose prev.containerPort occ (some (prev.hostPort + 1)) [prev.hostPort]

/-! ## What an allocation gives -/

section

variable {purpose : Purpose} {containerPort : UInt16} {occ : Occupancy} {hint : Option UInt16}
  {exclude : List UInt16} {lease prev : PortLease} {already : Option UInt16}

/-- A lease that is handed out is for what was asked, on a port that is free. -/
theorem allocate_ok (done : allocate purpose containerPort occ hint exclude = .ok lease) :
    lease.containerPort = containerPort ∧ lease.purpose = purpose ∧ occ.taken lease.hostPort = none ∧
      lease.hostPort ∉ exclude := by
  unfold allocate at done
  dsimp only at done
  split at done
  next p found =>
    have free := List.find?_some found
    cases done
    simpa using free
  next => cases done

theorem reallocate_ok (done : reallocateAfterCollision prev already occ = .ok lease) :
    lease.containerPort = prev.containerPort ∧ lease.purpose = prev.purpose ∧ occ.taken lease.hostPort = none ∧
      lease.hostPort ≠ prev.hostPort := by
  cases already with
  | some first => cases done
  | none =>
    obtain ⟨port, purpose, free, other⟩ := allocate_ok done
    exact ⟨port, purpose, free, fun same => other (List.mem_singleton.mpr same)⟩

end

end Ports

end Harpoon.Deploy
