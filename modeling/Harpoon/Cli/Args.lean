import Harpoon.Deploy.Envvars
import Harpoon.Wire.Fields

/-!
# Command lines

A command line is a command and flags, each of which takes a value or none (`args.rs`). A flag that takes a value has
the next argument for it, whatever that is.
-/

namespace Harpoon.Cli

open Deploy.Envvars (debugStr)

def authFlag : String := "authorize-live-docker-changes"

def authPhrase : String := "I-UNDERSTAND-THIS-CHANGES-REAL-DOCKER-STATE"

/-- The flags of a command. -/
structure Spec where
  command : String
  values : List String
  switches : List String

def specs : List Spec := [
  { command := "status"
    values := ["runtime-dir", "docker-socket"]
    switches := [] },
  { command := "doctor"
    values := ["runtime-dir", "project-dir", "context", "dockerfile", "container-port", "health-path", "resources-dir",
      "docker-socket", "mgmt-socket"]
    switches := [] },
  { command := "plan"
    values := ["runtime-dir", "project-dir", "context", "dockerfile", "container-port", "health-path", "env",
      "resources-dir", "docker-socket", "app"]
    switches := [] },
  { command := "recover"
    values := ["runtime-dir"]
    switches := [] },
  { command := "reconcile"
    values := ["runtime-dir", "docker-socket", "resources-dir", authFlag]
    switches := ["apply"] },
  { command := "deploy"
    values := ["runtime-dir", "project-dir", "context", "dockerfile", "container-port", "health-path", "env",
      "build-arg", "project", "environment", "target", "resources-dir", "docker-socket", "app",
      "health-timeout-secs", "mgmt-socket", "forwarder-pid", "forwarder-command", "forward-address",
      "lsof-path", authFlag]
    switches := ["simulate"] },
  { command := "replace"
    values := ["runtime-dir", "project-dir", "context", "dockerfile", "container-port", "health-path", "env",
      "build-arg", "project", "environment", "target", "resources-dir", "docker-socket", "app",
      "health-timeout-secs", "mgmt-socket", "forwarder-pid", "forwarder-command", "forward-address",
      "lsof-path", authFlag]
    switches := ["simulate", "confirm-cutover"] },
  { command := "repo-add"
    values := ["runtime-dir", "name", "url", "app", "project", "environment", "branch", "filter", "container-port",
      "dockerfile", "context", "target", "health-path", "username", "known-host", "webhook", "git-timeout-secs"]
    switches := ["simulate", "new", "confirm-reclaim"] },
  { command := "repo-update"
    values := ["runtime-dir", "name", "expect-registered-ms", "url", "branch", "container-port", "dockerfile",
      "health-path", "git-timeout-secs"]
    switches := ["simulate", "confirm-change"] },
  { command := "repo-remove"
    values := ["runtime-dir", "name", "expect-registered-ms"]
    switches := ["simulate", "confirm-removal"] },
  { command := "app-remove"
    values := ["runtime-dir", "name", "expect-registered-ms"]
    switches := ["simulate", "confirm-application-removal"] },
  { command := "repo-secret"
    values := ["runtime-dir", "name", "kind"]
    switches := ["simulate"] },
  { command := "repo-list"
    values := ["runtime-dir"]
    switches := [] },
  { command := "git-deploy"
    values := ["runtime-dir", "repo", "branch", "tag", "commit", "resources-dir", "docker-socket", "mgmt-socket",
      "forwarder-pid", "forwarder-command", "forward-address", "lsof-path", authFlag, "health-timeout-secs",
      "git-timeout-secs", "git-max-mb"]
    switches := ["simulate", "confirm-cutover"] },
  { command := "git-trigger"
    values := ["runtime-dir", "repo", "ref", "revision", "delivery", "source"]
    switches := ["simulate"] },
  { command := "git-run"
    values := ["runtime-dir", "repo", "resources-dir", "docker-socket", "mgmt-socket", "forwarder-pid",
      "forwarder-command", "forward-address", "lsof-path", authFlag, "health-timeout-secs", "git-timeout-secs",
      "git-max-mb"]
    switches := ["simulate", "confirm-cutover"] },
  { command := "watch"
    values := ["runtime-dir", "repo", "interval-secs", "iterations", "webhook-port", "webhook-wait-secs",
      "resources-dir", "docker-socket", "mgmt-socket", "forwarder-pid", "forwarder-command", "forward-address",
      "lsof-path", authFlag, "health-timeout-secs", "git-timeout-secs", "git-max-mb"]
    switches := ["simulate", "confirm-cutover", "once", "queue-only"] },
  { command := "config-set"
    values := ["runtime-dir", "scope", "name", "value"]
    switches := ["build", "runtime", "simulate"] },
  { command := "secret-set"
    values := ["runtime-dir", "scope", "name"]
    switches := ["build", "runtime", "simulate"] },
  { command := "config-unset"
    values := ["runtime-dir", "scope", "name"]
    switches := ["simulate"] },
  { command := "config-defs"
    values := ["runtime-dir", "scope"]
    switches := [] },
  { command := "config-show"
    values := ["runtime-dir", "app", "project", "environment", "deployment"]
    switches := ["check-secrets"] },
  { command := "config-diff"
    values := ["runtime-dir", "from", "to", "project", "environment"]
    switches := [] },
  { command := "resume"
    values := ["runtime-dir", "app", "revision"]
    switches := ["dismiss", "newest"] },
  { command := "events"
    values := ["runtime-dir", "app"]
    switches := [] },
  { command := "releases"
    values := ["runtime-dir", "app"]
    switches := [] },
  { command := "rollback"
    values := ["runtime-dir", "app", "to", "docker-socket", "resources-dir", "mgmt-socket", "forwarder-pid",
      "forwarder-command", "forward-address", "lsof-path", authFlag]
    switches := ["simulate", "confirm-rollback"] },
  { command := "restore"
    values := ["runtime-dir", "deployment", "docker-socket", "resources-dir", "mgmt-socket", "forwarder-pid",
      "forwarder-command", "forward-address", "lsof-path", authFlag]
    switches := ["simulate", "apply"] },
  { command := "export-journal"
    values := ["runtime-dir", "to"]
    switches := [] },
  { command := "teardown"
    values := ["runtime-dir", "deployment", "docker-socket", "resources-dir", authFlag]
    switches := ["apply"] },
  { command := "cleanup-image"
    values := ["runtime-dir", "deployment", "image", "docker-socket", "resources-dir", authFlag]
    switches := ["apply"] },
  { command := "inventory"
    values := ["docker-socket", "lsof-path", "to"]
    switches := [] }]

/-- The flags that may be given more than once. -/
def repeatable : List String := ["env", "build-arg", "filter"]

structure Parsed where
  command : String
  values : List (String × String) := []
  repeated : List (String × String) := []
  switches : List String := []
  deriving DecidableEq, Repr

namespace Parsed

def value (p : Parsed) (k : String) : Option String := p.values.lookup k

/-- Every occurrence of a repeatable flag, in the order given. -/
def list (p : Parsed) (k : String) : List String := (p.repeated.filter (·.1 = k)).map (·.2)

def switch (p : Parsed) (k : String) : Bool := p.switches.contains k

/-- The value of one more flag. -/
def give (p : Parsed) (name v : String) : Except String Parsed :=
  if repeatable.contains name then .ok { p with repeated := p.repeated ++ [(name, v)] }
  else if (p.value name).isSome then .error s!"--{name} given twice"
  else .ok { p with values := p.values ++ [(name, v)] }

end Parsed

/-- Why a command has no such flag. -/
def unknown (spec : Spec) (name : String) : String := s!"{spec.command} does not take --{name}"

def parseFlags (spec : Spec) : List String → Parsed → Except String Parsed
  | [], p => .ok p
  | a :: rest, p =>
    match Wire.stripPrefix "--" a with
    | none => .error s!"unexpected argument {debugStr a} (flags look like --name value)"
    | some flag =>
      match Wire.splitOnce '=' flag with
      | some (name, v) =>
        if spec.switches.contains name then .error s!"--{name} takes no value"
        else if spec.values.contains name then do
          let p ← p.give name v
          parseFlags spec rest p
        else .error (unknown spec name)
      | none =>
        if spec.switches.contains flag then parseFlags spec rest { p with switches := p.switches ++ [flag] }
        else if spec.values.contains flag then
          match rest with
          | [] => .error s!"--{flag} needs a value"
          | v :: rest => do
            let p ← p.give flag v
            parseFlags spec rest p
        else .error (unknown spec flag)

def parse : List String → Except String Parsed
  | [] => .error "no command given"
  | cmd :: rest =>
    match specs.find? fun s => s.command = cmd with
    | none => .error s!"unknown command {debugStr cmd}"
    | some spec => parseFlags spec rest { command := cmd }

end Harpoon.Cli
