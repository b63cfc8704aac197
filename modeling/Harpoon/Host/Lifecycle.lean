import Harpoon.Host.RuntimeConfig

/-!
# Starting and restarting the engine

`harpoon machine start` and `restart` (`HarpoonLifecycleCLI.swift`), the options they take (`HarpoonRuntimeState.swift`)
and the foreground run that a start spawns (`main.swift`). A restart checks the arguments, stops the engine and starts
it again.
-/

namespace Harpoon.Host

/-! ## Options -/

structure ResourceArgs where
  cpus : Option Int
  memory : Option Int
  kernel : Option String
  initramfs : Option String
  disk : Option String
  diskSize : Option String
  passthrough : List String
  deriving DecidableEq, Repr

def ResourceArgs.none : ResourceArgs := ⟨.none, .none, .none, .none, .none, .none, []⟩

/-- A number option that is no number is -1, which no check accepts. -/
def numberOption (v : String) : Int := (Machine.swiftInt v).getD (-1)

def diskSizePrefix : String := "--disk-size="

def parseResourceArgsFrom (r : ResourceArgs) : List String → ResourceArgs
  | [] => r
  | [a] =>
    match Wire.stripPrefix diskSizePrefix a with
    | some size => { r with diskSize := some size }
    | .none => r
  | a :: v :: rest =>
    if a = "--cpus" ∨ a = "--cpu" then
      parseResourceArgsFrom { r with cpus := some (numberOption v), passthrough := r.passthrough ++ [a, v] } rest
    else if a = "--memory" then
      parseResourceArgsFrom { r with memory := some (numberOption v), passthrough := r.passthrough ++ [a, v] } rest
    else if a = "--kernel" then
      parseResourceArgsFrom { r with kernel := some v, passthrough := r.passthrough ++ [a, v] } rest
    else if a = "--initramfs" then
      parseResourceArgsFrom { r with initramfs := some v, passthrough := r.passthrough ++ [a, v] } rest
    else if a = "--disk" then
      parseResourceArgsFrom { r with disk := some v, passthrough := r.passthrough ++ [a, v] } rest
    else if a = "--disk-size" then parseResourceArgsFrom { r with diskSize := some v } rest
    else
      match Wire.stripPrefix diskSizePrefix a with
      | some size => parseResourceArgsFrom { r with diskSize := some size } (v :: rest)
      | .none => parseResourceArgsFrom r (v :: rest)

def parseResourceArgs (args : List String) : ResourceArgs := parseResourceArgsFrom .none args

/-- The options that take a value. -/
def valued : List String := ["--cpus", "--cpu", "--memory", "--kernel", "--initramfs", "--disk", "--disk-size"]

structure Rejection where
  code : Int
  lines : List String
  deriving DecidableEq, Repr

/-- Every token is a known option, its value, or `--disk-size=SIZE`. -/
def tokenError : List String → Option Rejection
  | [] => none
  | [a] =>
    if a ∈ valued then some ⟨2, [s!"{a} needs a value"]⟩
    else if (Wire.stripPrefix diskSizePrefix a).isSome then none
    else some ⟨2, [s!"unknown option or stray argument: {a}"]⟩
  | a :: v :: rest =>
    if a ∈ valued then tokenError rest
    else if (Wire.stripPrefix diskSizePrefix a).isSome then tokenError (v :: rest)
    else some ⟨2, [s!"unknown option or stray argument: {a}"]⟩

/-! ## The foreground run -/

def machineLifecycleOptions : List String :=
  ["--cpus", "--cpu", "--memory", "--kernel", "--initramfs", "--disk", "--disk-size", "--help", "-h"]

def shouldUseLegacyMachineRun : List String → Bool
  | [] => true
  | first :: _ => first ∈ machineLifecycleOptions || (Wire.stripPrefix diskSizePrefix first).isSome

structure ForegroundOptions where
  config : RuntimeConfig
  cliCpusProvided : Bool
  deriving DecidableEq, Repr

/-- The options of the foreground run, or its usage. -/
def foregroundOptions (filePath : String → String) (o : ForegroundOptions) : List String → Option ForegroundOptions
  | [] => some o
  | [a] => if a = "--help" ∨ a = "-h" then none else some o
  | a :: v :: rest =>
    if a = "--cpus" ∨ a = "--cpu" then
      foregroundOptions filePath ⟨{ o.config with cpuCount := numberOption v }, true⟩ rest
    else if a = "--memory" then
      foregroundOptions filePath { o with config := { o.config with memoryMIB := numberOption v } } rest
    else if a = "--kernel" then
      foregroundOptions filePath { o with config := { o.config with kernel := filePath v } } rest
    else if a = "--initramfs" then
      foregroundOptions filePath { o with config := { o.config with initramfs := filePath v } } rest
    else if a = "--disk" then foregroundOptions filePath { o with config := { o.config with disk := filePath v } } rest
    else if a = "--help" ∨ a = "-h" then none
    else foregroundOptions filePath o (v :: rest)

namespace Machine

variable {Place : Type} [DecidableEq Place] (m : Machine Place)

/-- What `harpoon run` with these arguments takes for its configuration; none when it runs no machine. -/
def foregroundConfig (p : Program) (files : Files Place) (args : List String) : Option RuntimeConfig :=
  if shouldUseLegacyMachineRun args then do
    let o ← foregroundOptions m.filePath ⟨m.fromEnvironment files p, false⟩ args
    let unbounded := o.config.cpuCount < 1 ∨ 8 < o.config.cpuCount
    if o.cliCpusProvided = false ∧ unbounded ∧ (m.environment "HARPOON_CPUS").isSome then
      some { o.config with cpuCount := 2 }
    else some o.config
  else none

/-! ## The checks of a start -/

def resolveConfigFromArgs (p : Program) (files : Files Place) (args : List String) : RuntimeConfig :=
  let c := m.fromEnvironment files p
  let parsed := parseResourceArgs args
  { cpuCount := parsed.cpus.getD c.cpuCount
    memoryMIB := parsed.memory.getD c.memoryMIB
    kernel := (parsed.kernel.map m.filePath).getD c.kernel
    initramfs := (parsed.initramfs.map m.filePath).getD c.initramfs
    disk := (parsed.disk.map m.filePath).getD c.disk }

/-- Why a disk size would be refused. -/
def diskSizeRequestError (files : Files Place) (ds : String) : Option Rejection :=
  match parseDiskSize ds with
  | none => some ⟨2, [s!"invalid --disk-size: {ds} — use e.g. 8G, 16G, 32G, 1024M (G/GiB/M/MiB)"]⟩
  | some bytes =>
    if bytes < minProvisionBytes then some ⟨2, [s!"disk-size must be at least 2G, got {ds} ({bytes} bytes)"]⟩
    else
      match m.existingUserDiskPath files with
      | some existing =>
        let curLogical := m.logicalSize files existing
        if bytes ≠ curLogical then
          some ⟨1, [s!"disk already exists ({formatBytes curLogical} at {existing}) — " ++
            s!"use harpoon disk resize {ds} to grow (VM must be stopped)",
            "not resizing on start; --disk-size only provisions when no disk exists"]⟩
        else none
      | none => none

/-- Is the disk still to be made? -/
def provisions (p : Program) (files : Files Place) (args : List String) : Bool :=
  ((parseResourceArgs args).diskSize.isSome && (m.existingUserDiskPath files).isNone) ||
    m.wouldProvisionRootDisk files p (m.resolveConfigFromArgs p files args).disk

/-- Why a start with these arguments would be refused. -/
def startArgsError (p : Program) (files : Files Place) (args : List String) : Option Rejection :=
  match tokenError args with
  | some rejected => some rejected
  | none =>
    match (parseResourceArgs args).diskSize.bind (m.diskSizeRequestError files) with
    | some rejected => some rejected
    | none =>
      let cfg := m.resolveConfigFromArgs p files args
      match m.validate files cfg with
      | some invalid => some ⟨2, [invalid]⟩
      | none =>
        if !m.provisions p files args && (m.diskIdentity files cfg.disk).isNone then
          some ⟨1, [s!"persistent Docker root disk missing or identity invalid: {cfg.disk}"]⟩
        else none

/-! ## Start -/

/-- What the system answers a start, or a restart. -/
structure Answers where
  /-- No other lifecycle command holds the control lock. -/
  controlLock : Bool
  /-- What the stop returned. -/
  stopCode : Int
  /-- The engine's lock is held, or the pid file names a live engine. -/
  engineFound : Bool
  /-- Why Harpoon's own directory cannot be made. -/
  supportError : Option String
  logOpens : Bool
  spawnError : Option String
  deriving DecidableEq, Repr

inductive Started (Place : Type) where
  | refused (rejected : Rejection)
  | alreadyRunning
  | unsupported (error : String)
  | logNotOpened
  | notSpawned (error : String)
  | spawned (executable : String) (arguments : List String) (files : Files Place)

def resolveExecutable (p : Program) : String :=
  match p.bundleExecutable with
  | some bundleExec => bundleExec
  | none =>
    if p.arg0.toList.head? = some '/' then m.filePath p.arg0
    else if p.arg0.toList.contains '/' then m.currentDirectory ++ "/" ++ p.arg0
    else (m.inPath p.arg0).getD (m.filePath p.arg0)

/-- The program that is started from an executable. -/
def child (executable : String) : Program := ⟨executable, m.bundleAt executable⟩

/-- Make the disk that `--disk-size` asks for, when there is none. -/
def provisionRequested (p : Program) (files : Files Place) (args : List String) : Except Rejection (Files Place) :=
  match (parseResourceArgs args).diskSize with
  | none => .ok files
  | some ds =>
    match m.diskSizeRequestError files ds with
    | some rejected => .error rejected
    | none =>
      if (m.existingUserDiskPath files).isSome then .ok files
      else if !m.fileExists files (m.rootTemplate p) then .error ⟨1, ["template not found for provisioning"]⟩
      else
        let dest := m.defaultRootDiskDestination
        let bytes := (parseDiskSize ds).getD 0
        .ok (if m.fileExists files dest then files
          else m.copyTemplate files (m.rootTemplate p) dest (·.truncate bytes))

def handleStart (a : Answers) (p : Program) (files : Files Place) (args : List String) : Started Place :=
  if a.engineFound then .alreadyRunning
  else
    match a.supportError with
    | some error => .unsupported error
    | none =>
      match m.provisionRequested p files args with
      | .error rejected => .refused rejected
      | .ok files =>
        match m.startArgsError p files args with
        | some rejected => .refused rejected
        | none =>
          let cfg := m.resolveConfigFromArgs p files args
          let (disk, files) := m.provisionedRootDisk files p cfg.disk
          if !m.fileExists files disk || (m.diskIdentity files disk).isNone then
            .refused ⟨1, [s!"persistent Docker root disk missing or identity invalid: {disk}"]⟩
          else if !a.logOpens then .logNotOpened
          else
            match a.spawnError with
            | some error => .notSpawned error
            | none => .spawned (m.resolveExecutable p) ("run" :: (parseResourceArgs args).passthrough) files

/-! ## Restart -/

inductive Restarted (Place : Type) where
  | controlBusy
  /-- Refused before anything was stopped. -/
  | refused (rejected : Rejection)
  | notStopped (code : Int)
  | stopped (start : Started Place)

/-- The arguments of the start. A restart without arguments keeps the last run's processors and memory when there is no
user config. -/
def restartArgs (args : List String) : List String :=
  if args ≠ [] then args
  else
    match m.loadedConfig, m.metadata with
    | none, some last => ["--cpus", toString last.cpus, "--memory", toString last.memoryMiB]
    | _, _ => []

def handleRestart (a : Answers) (p : Program) (files : Files Place) (args : List String) : Restarted Place :=
  if !a.controlLock then .controlBusy
  else
    match m.startArgsError p files (m.restartArgs args) with
    | some rejected => .refused rejected
    | none =>
      if a.stopCode ≠ 0 then .notStopped a.stopCode
      else .stopped (m.handleStart a p files (m.restartArgs args))

end Machine

end Harpoon.Host
