import Harpoon.Deploy.Health

/-!
# A release's pinned configuration

What is needed to recreate a release (`release.rs`): everything but the values of its secrets, which
are pinned as references to exact saved versions (`secrets.rs`). The engine stores it, compares it
and hands it back; it never looks inside.
-/

namespace Harpoon.Deploy

/-- One immutable saved version of a secret. -/
structure SecretRef where
  id : String
  version : UInt32
  deriving DecidableEq, Repr

structure ReleaseConfig where
  imageId : String
  imageTag : String
  containerPort : UInt16
  hostPort : UInt16
  health : HealthSpec
  memoryBytes : Int
  nanoCpus : Int
  pids : Int
  env : List (String × String)
  secrets : List (String × SecretRef)
  snapshot : Option String
  build : Option String
  deriving DecidableEq, Repr

/-- The configuration of a simulated release, which names nothing real. -/
def ReleaseConfig.simulated (hostPort : UInt16) : ReleaseConfig where
  imageId := "sha256:0000000000000000000000000000000000000000000000000000000000000000"
  imageTag := "simulated"
  containerPort := 8080
  hostPort := hostPort
  health := .firstTest "/"
  memoryBytes := 256 * 1024 * 1024
  nanoCpus := 500000000
  pids := 64
  env := []
  secrets := []
  snapshot := none
  build := none

end Harpoon.Deploy
