import Harpoon.Deploy.Envvars
import Harpoon.Deploy.Release
import Harpoon.Journal.Frame

/-!
# A pinned configuration as one field

`v1;key=value;…` with free text in hexadecimal (`release.rs`). A release with an environment is `v2`;
one with secret references, a snapshot or a build identity is `v3`. References are `id@version`
(`secrets.rs`).
-/

namespace Harpoon.Deploy

open Wire Journal

/-! ## References -/

namespace SecretRef

def asStr (r : SecretRef) : String := r.id ++ (String.singleton '@' ++ r.version.toNat.repr)

def parse (s : String) : Except String SecretRef := do
  let (id, v) ← need "a secret reference is <id>@<version>" (rsplitOnce '@' s)
  let version ← need "the secret version is not a number" (parseUnsigned 10 0xFFFFFFFF v)
  if id.isEmpty ∨ version = 0 then .error "a secret reference needs an id and a version of at least 1"
  else .ok ⟨id, UInt32.ofNat version⟩

end SecretRef

namespace ReleaseConfig

/-! ## Writing -/

def expectStr : StatusClass → String
  | .success2xx => "2xx"
  | .notServerError => "lt500"

/-- `key=value`. -/
def keyed (key value : String) : String := key ++ (String.singleton '=' ++ value)

/-- The parts that every version has. -/
def baseParts (c : ReleaseConfig) : List String :=
  [keyed "img" (hexText c.imageId), keyed "tag" (hexText c.imageTag), keyed "cport" c.containerPort.toNat.repr,
    keyed "hport" c.hostPort.toNat.repr, keyed "path" (hexText c.health.path),
    keyed "expect" (expectStr c.health.expect), keyed "interval" c.health.intervalMs.repr,
    keyed "ok" c.health.consecutiveOk.toNat.repr, keyed "deadline" c.health.startupDeadlineMs.repr,
    keyed "mem" (signedText c.memoryBytes), keyed "cpu" (signedText c.nanoCpus), keyed "pids" (signedText c.pids)]

/-- One entry of the environment or of the secrets. -/
def entry (name value : String) : String := hexText (keyed name value)

def envPart (c : ReleaseConfig) : String := keyed "env" (joined ',' (c.env.map fun p => entry p.1 p.2))

def secPart (c : ReleaseConfig) : String := keyed "sec" (joined ',' (c.secrets.map fun p => entry p.1 p.2.asStr))

def parts (c : ReleaseConfig) : List String :=
  if c.secrets = [] ∧ c.snapshot = none ∧ c.build = none then
    if c.env = [] then "v1" :: c.baseParts else "v2" :: (c.baseParts ++ [c.envPart])
  else
    "v3" :: (c.baseParts ++ [c.envPart, c.secPart, keyed "snap" ((c.snapshot.map hexText).getD ""),
      keyed "build" ((c.build.map hexText).getD "")])

def encode (c : ReleaseConfig) : String := joined ';' c.parts

/-! ## Reading -/

/-- The largest number of a signed field. -/
def maxSigned : Nat := 0x7FFFFFFFFFFFFFFF

/-- The value of the next part, which must have this key, and the parts after it. -/
def part (key : String) : List String → Except String (String × List String)
  | [] => .error s!"missing {key}"
  | p :: ps =>
    match stripPrefix (key ++ String.singleton '=') p with
    | some v => .ok (v, ps)
    | none => .error s!"expected {key}"

def num (what v : String) : Except String Int := need s!"{what} is not a number" (parseSigned maxSigned v)

def text (what v : String) : Except String String := need s!"{what} is not valid" (unhexText v)

/-- A number that must lie within bounds. -/
def within (bound : Nat) (why : String) (i : Int) : Except String Nat :=
  if 0 ≤ i ∧ i ≤ bound then .ok i.toNat else .error why

/-- The entries of a list, without the empty ones. -/
def entries (raw : String) : List String := (fields ',' raw).filter (· ≠ "")

def readPair (item : String) : Except String (String × String) := do
  let kv ← need "an environment entry is not valid" (unhexText item)
  need "an environment entry has no name" (splitOnce '=' kv)

def readEnv (version raw : String) : Except String (List (String × String)) :=
  if raw.isEmpty ∧ version = "v2" then
    .error "a v2 pinned configuration has an empty environment (it would be v1)"
  else do
    let pairs ← (entries raw).mapM readPair
    let canonical ← (Envvars.validate pairs).mapError fun e => s!"pinned environment: {e}"
    if canonical ≠ pairs then .error "the pinned environment is not in canonical order"
    else .ok canonical

def readSecret (item : String) : Except String (String × SecretRef) := do
  let kv ← need "a secret entry is not valid" (unhexText item)
  let (n, r) ← need "a secret entry has no name" (splitOnce '=' kv)
  (Envvars.checkName n).mapError fun e => s!"pinned secret: {e}"
  let ref ← (SecretRef.parse r).mapError fun e => s!"pinned secret: {e}"
  return (n, ref)

/-- Is each name smaller than the next one? -/
def increasing : List String → Bool
  | [] | [_] => true
  | a :: b :: rest => a < b && increasing (b :: rest)

def readSecrets (env : List (String × String)) (raw : String) : Except String (List (String × SecretRef)) := do
  let secrets ← (entries raw).mapM readSecret
  if !increasing (secrets.map (·.1)) then .error "the pinned secrets are not unique and in canonical order"
  else if secrets.any fun s => env.any fun p => p.1 = s.1 then
    .error "a name is pinned both as a value and as a secret"
  else .ok secrets

def readOptional (what v : String) : Except String (Option String) :=
  if v.isEmpty then .ok none else some <$> need s!"the pinned {what} is not valid" (unhexText v)

def readEnvPart (version : String) (ps : List String) : Except String (List (String × String) × List String) :=
  if version = "v2" ∨ version = "v3" then do
    let (raw, ps) ← part "env" ps
    let env ← readEnv version raw
    return (env, ps)
  else .ok ([], ps)

/-- The parts that only a `v3` configuration has, and the parts after them. -/
structure Extras where
  secrets : List (String × SecretRef)
  snapshot : Option String
  build : Option String
  rest : List String

def readExtras (version : String) (env : List (String × String)) (ps : List String) : Except String Extras :=
  if version = "v3" then do
    let (raw, ps) ← part "sec" ps
    let secrets ← readSecrets env raw
    let (snap, ps) ← part "snap" ps
    let snapshot ← readOptional "snapshot id" snap
    let (build, ps) ← part "build" ps
    let build ← readOptional "build identity" build
    if secrets = [] ∧ snapshot = none ∧ build = none then
      .error "a v3 pinned configuration with nothing v3 about it (it would be v1 or v2)"
    else .ok ⟨secrets, snapshot, build, ps⟩
  else .ok ⟨[], none, none, ps⟩

def readExpect (s : String) : Except String StatusClass :=
  match s with
  | "2xx" => .ok .success2xx
  | "lt500" => .ok .notServerError
  | other => .error s!"unknown health expectation {Envvars.debugStr other}"

/-- The parts that every version has, before their bounds are checked. -/
structure Base where
  imageId : String
  imageTag : String
  containerPort : Int
  hostPort : Int
  path : String
  expect : StatusClass
  interval : Int
  consecutiveOk : Int
  deadline : Int
  memoryBytes : Int
  nanoCpus : Int
  pids : Int

def readBase (ps : List String) : Except String (Base × List String) := do
  let (v, ps) ← part "img" ps
  let imageId ← text "image id" v
  let (v, ps) ← part "tag" ps
  let imageTag ← text "image tag" v
  let (v, ps) ← part "cport" ps
  let containerPort ← num "container port" v
  let (v, ps) ← part "hport" ps
  let hostPort ← num "host port" v
  let (v, ps) ← part "path" ps
  let path ← text "health path" v
  let (v, ps) ← part "expect" ps
  let expect ← readExpect v
  let (v, ps) ← part "interval" ps
  let interval ← num "health interval" v
  let (v, ps) ← part "ok" ps
  let consecutiveOk ← num "consecutive successes" v
  let (v, ps) ← part "deadline" ps
  let deadline ← num "health deadline" v
  let (v, ps) ← part "mem" ps
  let memoryBytes ← num "memory" v
  let (v, ps) ← part "cpu" ps
  let nanoCpus ← num "cpu" v
  let (v, ps) ← part "pids" ps
  let pids ← num "pids" v
  return ({
    imageId, imageTag, containerPort, hostPort, path, expect, interval, consecutiveOk, deadline, memoryBytes,
    nanoCpus, pids }, ps)

/-- The whole configuration, once its bounds are checked. -/
def assemble (b : Base) (env : List (String × String)) (x : Extras) : Except String ReleaseConfig :=
  if x.rest ≠ [] then .error "unexpected trailing fields"
  else if (stripPrefix "sha256:" b.imageId).isNone then .error "the pinned image is not an exact image id"
  else do
    let containerPort ← within 65535 "container port is out of range" b.containerPort
    let hostPort ← within 65535 "host port is out of range" b.hostPort
    let intervalMs ← within maxNumber "health interval is negative" b.interval
    let consecutiveOk ← within 255 "consecutive successes out of range" b.consecutiveOk
    let startupDeadlineMs ← within maxNumber "health deadline is negative" b.deadline
    return {
      imageId := b.imageId
      imageTag := b.imageTag
      containerPort := UInt16.ofNat containerPort
      hostPort := UInt16.ofNat hostPort
      health := ⟨b.path, b.expect, intervalMs, UInt8.ofNat consecutiveOk, startupDeadlineMs⟩
      memoryBytes := b.memoryBytes
      nanoCpus := b.nanoCpus
      pids := b.pids
      env := env
      secrets := x.secrets
      snapshot := x.snapshot
      build := x.build }

/-- The configuration of a version, from the parts after it. -/
def readParts (version : String) (ps : List String) : Except String ReleaseConfig := do
  let (base, ps) ← readBase ps
  let (env, ps) ← readEnvPart version ps
  let extras ← readExtras version env ps
  assemble base env extras

def decode (s : String) : Except String ReleaseConfig :=
  let version := (fields ';' s).headD ""
  if version ≠ "v1" ∧ version ≠ "v2" ∧ version ≠ "v3" then .error "unknown pinned-configuration version"
  else readParts version ((fields ';' s).drop 1)

end ReleaseConfig

end Harpoon.Deploy
