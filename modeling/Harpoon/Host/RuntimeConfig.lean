import Harpoon.Git.Url
import Harpoon.Wire.Number

/-!
# The configuration of a run

What a run of the virtual machine is given: processors, memory, kernel, initramfs and root disk
(`RuntimeConfig.swift`). Options override the environment, the environment the config file, and that the defaults.

A path leads to a place, links followed. What is at the places changes when a disk is made and not otherwise; where
paths lead, the environment, the config files and the guest assets that a program finds do not change. Harpoon's own
run-time files (the pid file, the metadata, the log, the stop file and the sockets) are not among the files here.
Directories on the way to a new file are made with it.
-/

namespace Harpoon.Host

open Wire (Bytes)
open Git (isWhitespace)

/-! ## Files -/

/-- A file's data, with a hole of zeros behind it. -/
structure Content where
  data : Bytes
  hole : Nat
  deriving DecidableEq, Repr

def Content.size (c : Content) : Nat := c.data.length + c.hole

def Content.bytes (c : Content) : Bytes := c.data ++ List.replicate c.hole 0

def Content.truncate (c : Content) (size : Nat) : Content := ⟨c.data.take size, size - c.data.length⟩

inductive Node where
  | regular (content : Content)
  /-- A directory, a socket or a device. -/
  | other
  deriving DecidableEq, Repr

abbrev Files (Place : Type) := Place → Option Node

/-! ## What does not change -/

structure HarpoonUserConfig where
  cpus : Option Int
  memory : Option Int
  diskSize : Option String
  deriving DecidableEq, Repr

/-- Of the metadata of the last run, what a restart reads. -/
structure RuntimeMetadata where
  cpus : Int
  memoryMiB : Int
  deriving DecidableEq, Repr

/-- How a program was started: the name it was given, and its executable. -/
structure Program where
  arg0 : String
  bundleExecutable : Option String
  deriving DecidableEq, Repr

structure Machine (Place : Type) where
  environment : String → Option String
  home : String
  /-- The path of the file URL that is made from a path. -/
  filePath : String → String
  reach : String → Place
  /-- Is the last component of the path a symbolic link? -/
  isLink : String → Bool
  /-- A file URL's path leads where the path leads that it is made from. -/
  reach_filePath : ∀ p, reach (filePath p) = reach p
  isLink_filePath : ∀ p, isLink (filePath p) = isLink p
  /-- The config candidates that decode, in order. -/
  userConfigs : List HarpoonUserConfig
  /-- What `loadUserConfig` reads. -/
  loadedConfig : Option HarpoonUserConfig
  metadata : Option RuntimeMetadata
  /-- The directory of the guest assets that a program finds: beside it, or in its source tree, or in the working
  directory (`installedLibDir`, `sourceAssetRoot`). -/
  guestAssets : Program → String
  /-- The executable of a program that is started from a path. -/
  bundleAt : String → Option String
  currentDirectory : String
  /-- The executable of a name in `PATH`. -/
  inPath : String → Option String
  /-- The memory that the virtualization framework allows, in bytes. -/
  minimumAllowedMemorySize : Nat
  maximumAllowedMemorySize : Nat
  sha256 : Bytes → String

structure RuntimeConfig where
  cpuCount : Int
  memoryMIB : Int
  kernel : String
  initramfs : String
  disk : String
  deriving DecidableEq, Repr

/-! ## Disk sizes -/

/-- Lower case. Of the characters outside ASCII one has a lower case in ASCII. -/
def lowercased (s : String) : List Char := s.toList.map fun c => if c = '\u212a' then 'k' else c.toLower

/-- The number and the unit of a disk size. Whitespace is skipped; a number after the unit is refused. -/
def sizeParts : List Char → List Char → List Char → Option (List Char × List Char)
  | numPart, unitPart, [] => some (numPart, unitPart)
  | numPart, unitPart, ch :: rest =>
    if ch.isDigit ∨ ch = '.' then
      if unitPart ≠ [] then none else sizeParts (numPart ++ [ch]) unitPart rest
    else if ch.isAlpha then sizeParts numPart (unitPart ++ [ch]) rest
    else if isWhitespace ch then sizeParts numPart unitPart rest
    else none

def sizeUnit (unit : String) : Option Nat :=
  match unit with
  | "" | "b" => some 1
  | "m" | "mb" | "mib" => some (1024 * 1024)
  | "g" | "gb" | "gib" => some (1024 * 1024 * 1024)
  | "k" | "kb" | "kib" => some 1024
  | "t" | "tb" | "tib" => some (1024 * 1024 * 1024 * 1024)
  | _ => none

def u64Max : Nat := 18446744073709551615

def parseDiskSize (s : String) : Option Nat := do
  let (numPart, unitPart) ← sizeParts [] [] (lowercased s)
  if numPart.contains '.' then none
  else
    let num ← (Wire.unsigned 10 u64Max numPart).filter (0 < ·)
    let mult ← sizeUnit (String.ofList unitPart)
    let res := num * mult
    -- an overflow of 64 bits is refused too, and is more than this
    if 5 * 1024 * 1024 * 1024 * 1024 < res then none else some res

def formatBytes (b : Nat) : String :=
  if b % (1024 * 1024 * 1024) = 0 then s!"{b / (1024 * 1024 * 1024)} GiB"
  else if b % (1024 * 1024) = 0 then s!"{b / (1024 * 1024)} MiB"
  else s!"{b} bytes"

def defaultProvisionBytes : Nat := 32 * 1024 * 1024 * 1024

def minProvisionBytes : Nat := 2 * 1024 * 1024 * 1024

namespace Machine

variable {Place : Type} [DecidableEq Place] (m : Machine Place) (files : Files Place)

/-! ## Paths -/

def testRoot : Option String := (m.environment "HARPOON_TEST_TMPDIR").filter (· ≠ "")

def productionDisk : String := m.home ++ "/Library/Application Support/Harpoon/data/harpoon-root.img"

def isTest : Bool :=
  m.environment "HARPOON_ALLOW_TMP_FALLBACK" = some "1" || m.environment "HARPOON_TEST_MODE" = some "1" ||
    (m.environment "HARPOON_TEST_TMPDIR").isSome

def defaultRootDiskDestination : String :=
  match m.testRoot with
  | some root => root ++ "/data/harpoon-root.img"
  | none => m.productionDisk

/-- Disk lookup order. The first candidate is where a disk is made. -/
def userDiskCandidates (testFlags : Bool) : List String :=
  m.defaultRootDiskDestination ::
    if m.testRoot.isNone && testFlags then ["/tmp/harpoon-runtime/data/harpoon-root.img"] else []

/-! ## Lookups -/

def fileExists (p : String) : Bool := (files (m.reach p)).isSome

/-- The data of a regular file. -/
def contents (p : String) : Option Bytes :=
  match files (m.reach p) with
  | some (.regular content) => some content.bytes
  | _ => none

/-- A regular file's device and inode are its place. -/
def diskIdentity (p : String) : Option Place :=
  match files (m.reach p) with
  | some (.regular _) => some (m.reach p)
  | _ => none

/-- The type of a file, links not followed, is regular. -/
def typeRegular (p : String) : Bool := !m.isLink p && (m.diskIdentity files p).isSome

/-- The size of a file, links not followed. The size of a link or a directory is no disk's size. -/
def logicalSize (p : String) : Nat :=
  match files (m.reach p) with
  | some (.regular content) => if m.isLink p then 0 else content.size
  | _ => 0

def existingUserDiskPath : Option String := (m.userDiskCandidates m.isTest).find? (m.fileExists files)

def rootTemplate (p : Program) : String :=
  match (m.environment "HARPOON_TEST_ROOT").filter (· ≠ "") with
  | some path => m.filePath path
  | none => m.guestAssets p ++ "/harpoon-root.img"

def resolveResource (p : Program) (named : String) : String := m.guestAssets p ++ "/" ++ named

def resolveRootDiskPath : String :=
  m.filePath ((m.existingUserDiskPath files).getD m.defaultRootDiskDestination)

/-! ## Making a disk -/

/-- The files with the template's copy at `dest`, resized. A template that is no regular file is copied as what it is,
and not resized. -/
def copyTemplate (template dest : String) (resize : Content → Content) : Files Place := fun place =>
  if place = m.reach dest then
    match files (m.reach template) with
    | some (.regular content) => some (.regular (resize content))
    | other => other
  else files place

def wouldProvisionRootDisk (p : Program) (url : String) : Bool :=
  url = m.defaultRootDiskDestination && !m.fileExists files url && (m.existingUserDiskPath files).isNone &&
    m.fileExists files (m.rootTemplate p)

/-- The layers in order, skipping one that is unparseable or too small. -/
def provisionBytes (environment config : Option String) : Nat :=
  let usable (raw : Option String) : Option Nat := (raw.bind parseDiskSize).filter (minProvisionBytes ≤ ·)
  ((usable environment).or (usable config)).getD defaultProvisionBytes

def configuredDiskSize : Option String :=
  m.userConfigs.findSome? fun config =>
    config.diskSize.filter fun ds => ((parseDiskSize ds).filter (minProvisionBytes ≤ ·)).isSome

def desiredProvisionBytes : Nat := provisionBytes (m.environment "HARPOON_DISK_SIZE") m.configuredDiskSize

/-- The new disk is grown to the desired size. -/
def grown (content : Content) : Content :=
  if content.size < m.desiredProvisionBytes then content.truncate m.desiredProvisionBytes else content

/-- Where the default disk is, made from the template when there is none; or the template, when there is none either. -/
def provisionDefaultRootDisk (p : Program) : String × Files Place :=
  match m.existingUserDiskPath files with
  | some path => (m.filePath path, files)
  | none =>
    if m.fileExists files (m.rootTemplate p) then
      (m.filePath m.defaultRootDiskDestination,
        m.copyTemplate files (m.rootTemplate p) m.defaultRootDiskDestination m.grown)
    else (m.rootTemplate p, files)

/-- The disk that a start should use, made on the first run. -/
def provisionedRootDisk (p : Program) (url : String) : String × Files Place :=
  if m.wouldProvisionRootDisk files p url then
    let (made, files) := m.provisionDefaultRootDisk files p
    (if made = m.rootTemplate p then url else made, files)
  else (url, files)

/-! ## The configuration -/

def swiftInt (s : String) : Option Int := Wire.parseSigned 9223372036854775807 s

/-- The configuration before any option. -/
def fromEnvironment (p : Program) : RuntimeConfig :=
  let fileCfg := m.userConfigs.head?
  { cpuCount := ((m.environment "HARPOON_CPUS").bind swiftInt).getD ((fileCfg.bind (·.cpus)).getD 2)
    memoryMIB := ((m.environment "HARPOON_MEMORY_MIB").bind swiftInt).getD ((fileCfg.bind (·.memory)).getD 4096)
    kernel := ((m.environment "HARPOON_KERNEL").map m.filePath).getD (m.resolveResource p "Image-virt")
    initramfs := ((m.environment "HARPOON_INITRAMFS").map m.filePath).getD
      (m.resolveResource p "harpoon-initramfs.cpio.gz")
    disk := ((m.environment "HARPOON_DISK").map m.filePath).getD (m.resolveRootDiskPath files) }

def memoryValidationError (mib : Int) : Option String :=
  let minMiB : Int := max 512 (m.minimumAllowedMemorySize / 1024 / 1024)
  let maxMiB : Int := m.maximumAllowedMemorySize / 1024 / 1024
  if mib < minMiB ∨ maxMiB < mib then some s!"memoryMIB must be {minMiB}...{maxMiB}, got {mib}" else none

/-- The directory that a path is in. -/
def deletingLastPathComponent (p : String) : String := ((Wire.rsplitOnce '/' p).map (·.1)).getD ""

/-- The name and the value of a manifest line. Empty parts are none. -/
def manifestField (line : String) : Option (String × String) :=
  (Wire.splitOnce ' ' (String.ofList (line.toList.dropWhile (· = ' ')))).filter fun parts => parts.2 ≠ ""

def guestAssetValidationError (kernel initramfs : String) : Option String :=
  let manifest := deletingLastPathComponent kernel ++ "/guest-assets.manifest"
  match (m.contents files manifest).bind Wire.fromUtf8 with
  | none => some s!"GUEST_ASSET_MISMATCH manifest missing: {manifest}"
  | some text =>
    let lines := (Wire.fields '\n' text).filter (· ≠ "")
    if lines.head? ≠ some "harpoon-guest-assets-v1" then
      some s!"GUEST_ASSET_MISMATCH invalid manifest: {manifest}"
    else
      let fields := (lines.tail.filterMap manifestField).reverse
      match fields.lookup "kernel_sha256", fields.lookup "initramfs_sha256" with
      | some expectedKernel, some expectedInitramfs =>
        let actualKernel := ((m.contents files kernel).map m.sha256).getD "missing"
        let actualInitramfs := ((m.contents files initramfs).map m.sha256).getD "missing"
        if actualKernel = expectedKernel ∧ actualInitramfs = expectedInitramfs then none
        else
          some (s!"GUEST_ASSET_MISMATCH kernel={kernel} expected={expectedKernel} actual={actualKernel}; " ++
            s!"initramfs={initramfs} expected={expectedInitramfs} actual={actualInitramfs}; " ++
            "rebuild the matching guest pair")
      | _, _ => some s!"GUEST_ASSET_MISMATCH invalid manifest: {manifest}"

/-- Why the configuration is refused. -/
def validate (c : RuntimeConfig) : Option String :=
  if c.cpuCount < 1 then some s!"cpuCount must be >=1, got {c.cpuCount}"
  else if c.cpuCount < 1 ∨ 8 < c.cpuCount then some s!"cpuCount must be 1...8, got {c.cpuCount}"
  else
    match m.memoryValidationError c.memoryMIB with
    | some error => some error
    | none =>
      if !m.fileExists files c.kernel then some s!"kernel not found: {c.kernel}"
      else if !m.fileExists files c.initramfs then some s!"initramfs not found: {c.initramfs}"
      else
        match m.guestAssetValidationError files c.kernel c.initramfs with
        | some mismatch => some mismatch
        | none =>
          if m.fileExists files c.disk && !m.typeRegular files c.disk then
            some s!"persistent disk identity invalid: not a regular file {c.disk}"
          else none

end Machine

end Harpoon.Host
