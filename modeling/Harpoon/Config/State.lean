import Harpoon.Config.Records
import Harpoon.Deploy.State
import Harpoon.Keyed.Table

/-!
# What the configuration records say

The definitions, the newest version of each secret and the snapshots, rebuilt by applying the records in
order. A record that contradicts those before it is refused.
-/

namespace Harpoon.Config

open Deploy

structure ConfigState where
  defs : List Def
  /-- The highest saved version of each secret. -/
  versions : Keyed.Table SecretRef.id
  snapshots : List Snapshot

namespace ConfigState

def empty : ConfigState := ⟨[], .empty, []⟩

/-- The highest saved version of a secret, 0 before the first. -/
def lastVersion (s : ConfigState) (id : String) : UInt32 := ((s.versions.find id).map (·.version)).getD 0

def checkSaved (s : ConfigState) (r : SecretRef) : Except String Unit :=
  if (s.versions.find r.id).any fun v => r.version ≤ v.version then .ok ()
  else .error s!"a record names secret {r.id}@{r.version.toNat}, which was never saved"

def checkValue (s : ConfigState) : Value → Except String Unit
  | .secret r => s.checkSaved r
  | .config _ => .ok ()

def checkSetting (s : ConfigState) : Setting → Except String Unit
  | .set _ value => s.checkValue value
  | .unset => .ok ()

/-- Check each entry of a snapshot, given the names before it. -/
def checkEntries (s : ConfigState) : List String → List Entry → Except String Unit
  | _, [] => .ok ()
  | seen, e :: rest => do
    if seen.contains e.name then throw s!"snapshot repeats {e.name}"
    s.checkValue e.value
    s.checkEntries (e.name :: seen) rest

/-- Apply one record, refusing any that contradicts the state so far. -/
def apply (s : ConfigState) : ConfigRecord → Except String ConfigState
  | .secretSaved x =>
    -- Versions need not be consecutive: a save that stopped before its record leaves a version out.
    if x.version ≤ s.lastVersion x.id then
      .error s!"secret {x.id} version {x.version.toNat} does not follow version {(s.lastVersion x.id).toNat}"
    else .ok { s with versions := s.versions.insert ⟨x.id, x.version⟩ }
  | .definition d => do
    s.checkSetting d.setting
    return { s with defs := s.defs ++ [d] }
  | .snapshot x => do
    if s.snapshots.any fun y => y.deployment = x.deployment then
      throw s!"a configuration snapshot for deployment {x.deployment} is recorded twice"
    s.checkEntries [] x.entries
    return { s with snapshots := s.snapshots ++ [x] }

/-- The version that the next save of a secret gets. In a build that checks arithmetic, the save after the
largest version stops here instead. -/
def nextVersion (s : ConfigState) (id : String) : UInt32 := s.lastVersion id + 1

def snapshotOf (s : ConfigState) (d : DeploymentId) : Option Snapshot := s.snapshots.find? (·.deployment = d)

/-- The snapshot that a pinned configuration names is recorded. -/
def checkOrigin (s : ConfigState) (d : Deployment) : Option String → Except String Unit
  | none => .ok ()
  | some origin =>
    match Id.parse .deployment origin with
    | .error _ => .error s!"deployment {d.id} pins a malformed configuration snapshot id"
    | .ok id =>
      if (s.snapshotOf id).isSome then .ok ()
      else .error s!"deployment {d.id} pins snapshot {origin}, which is not recorded"

def checkPin (s : ConfigState) (d : Deployment) : Option ReleaseConfig → Except String Unit
  | none => .ok ()
  | some p => do
    s.checkOrigin d p.snapshot
    p.secrets.forM fun q => (s.checkSaved q.2).mapError fun e => s!"deployment {d.id}: {e}"

/-- After the replay: every pinned snapshot is recorded and every pinned secret was saved. -/
def checkPins (s : ConfigState) (deployments : List Deployment) : Except String Unit :=
  deployments.forM fun d => s.checkPin d d.pinned

/-- Apply records in order, from the first one that was ever written. -/
def replay : ConfigState → List ConfigRecord → Except String ConfigState
  | s, [] => .ok s
  | s, r :: rs => do
    let s ← s.apply r
    s.replay rs

end ConfigState

end Harpoon.Config
