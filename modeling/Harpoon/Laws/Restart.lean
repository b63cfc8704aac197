import Harpoon.Host.Lifecycle

/-!
# What a restart can start again

A restart checks its arguments before it stops the engine, and the start that follows checks them again, when it may
have made a disk. The two agree, and the run that is spawned takes the configuration that was checked, except where the
disk is still to be made and the template or the disk that was asked for is not what the first check takes it for, and
where the spawned run finds other guest assets than the command did.
-/

namespace Harpoon.Host

/-- The run that a start spawned takes this configuration. -/
def Machine.Started.Runs {Place : Type} (m : Machine Place) (c : RuntimeConfig) : Machine.Started Place → Prop
  | .spawned executable ("run" :: args) files => m.foregroundConfig (m.child executable) files args = some c
  | _ => False

/-- Every system call succeeds, the stop too, and no other engine is found. -/
structure Machine.Answers.AllSucceed (a : Machine.Answers) : Prop where
  controlLock : a.controlLock = true
  stopCode : a.stopCode = 0
  engineFound : a.engineFound = false
  supportError : a.supportError = none
  logOpens : a.logOpens = true
  spawnError : a.spawnError = none

namespace Machine

variable {Place : Type} (m : Machine Place) (p : Program) (files : Files Place) (args : List String)

/-- A disk size is given and there is no disk. -/
def requestsDisk : Bool := (parseResourceArgs args).diskSize.isSome && (m.existingUserDiskPath files).isNone

/-- The spawned run finds the kernel and the initramfs that the command found. -/
structure SameAssets : Prop where
  kernel : (parseResourceArgs args).kernel = none → m.environment "HARPOON_KERNEL" = none →
    m.resolveResource (m.child (m.resolveExecutable p)) "Image-virt" = m.resolveResource p "Image-virt"
  initramfs : (parseResourceArgs args).initramfs = none → m.environment "HARPOON_INITRAMFS" = none →
    m.resolveResource (m.child (m.resolveExecutable p)) "harpoon-initramfs.cpio.gz" =
      m.resolveResource p "harpoon-initramfs.cpio.gz"

/-- What a start needs beyond the check that a restart makes before it stops the engine. -/
structure StartsAgain : Prop where
  assets : m.SameAssets p args
  /-- A disk is made of a template that is a regular file. -/
  template : m.provisions p files args = true → (m.diskIdentity files (m.rootTemplate p)).isSome = true
  /-- A disk of a given size is made at a name that is no dangling link. -/
  dest : m.requestsDisk files args = true → m.isLink m.defaultRootDiskDestination = false
  /-- The disk that is asked for is there, or it is the one that is made. -/
  disk : m.requestsDisk files args = true →
    let disk := (m.resolveConfigFromArgs p files args).disk
    m.fileExists files disk = true ∨ m.reach disk = m.reach m.defaultRootDiskDestination ∧ m.isLink disk = false

end Machine

/-! ## Options -/

/-- The configuration with the options over it. -/
def ResourceArgs.onto (filePath : String → String) (r : ResourceArgs) (c : RuntimeConfig) : RuntimeConfig where
  cpuCount := r.cpus.getD c.cpuCount
  memoryMIB := r.memory.getD c.memoryMIB
  kernel := (r.kernel.map filePath).getD c.kernel
  initramfs := (r.initramfs.map filePath).getD c.initramfs
  disk := (r.disk.map filePath).getD c.disk

/-- The options of a foreground run with the options of a start over them. -/
def ForegroundOptions.under (filePath : String → String) (o : ForegroundOptions) (r : ResourceArgs) :
    ForegroundOptions :=
  ⟨r.onto filePath o.config, o.cliCpusProvided || r.cpus.isSome⟩

/-- What is passed through is read as the options that were parsed, and begins with an option of the machine. -/
structure ResourceArgs.Passed (filePath : String → String) (r : ResourceArgs) : Prop where
  reads : ∀ (o : ForegroundOptions) (rest : List String),
    foregroundOptions filePath o (r.passthrough ++ rest) = foregroundOptions filePath (o.under filePath r) rest
  leads : shouldUseLegacyMachineRun r.passthrough = true

section

variable {filePath : String → String} {r next : ResourceArgs} {args : List String} {a v : String}

theorem passed_none : ResourceArgs.none.Passed filePath where
  reads := by
    intro o rest
    have same : o.under filePath .none = o := by
      cases o
      simp [ForegroundOptions.under, ResourceArgs.onto, ResourceArgs.none]
    rw [same]
    rfl
  leads := rfl

/-- One more option that a foreground run reads as the start does. -/
theorem ResourceArgs.Passed.option (so : r.Passed filePath) (known : a ∈ machineLifecycleOptions)
    (through : next.passthrough = r.passthrough ++ [a, v])
    (reads : ∀ (o : ForegroundOptions) (rest : List String),
      foregroundOptions filePath (o.under filePath r) (a :: v :: rest) =
        foregroundOptions filePath (o.under filePath next) rest) : next.Passed filePath where
  reads := by
    intro o rest
    rw [through, List.append_assoc, so.reads, List.cons_append, List.cons_append, List.nil_append, reads]
  leads := by
    have leads := so.leads
    rw [through]
    cases behind : r.passthrough with
    | nil => exact Bool.or_eq_true_iff.mpr (.inl (decide_eq_true known))
    | cons first rest =>
      rw [behind] at leads
      exact leads

theorem passed_from (so : r.Passed filePath) : (parseResourceArgsFrom r args).Passed filePath := by
  fun_induction parseResourceArgsFrom r args with
  | case1 => exact so
  | case2 => exact ⟨so.reads, so.leads⟩
  | case3 => exact so
  | case4 r a v rest flag ih =>
    have known : a ∈ machineLifecycleOptions := by
      rcases flag with rfl | rfl <;> decide
    refine ih (so.option known rfl fun o rest => ?_)
    rw [foregroundOptions, if_pos flag]
    simp [ForegroundOptions.under, ResourceArgs.onto]
  | case5 r v rest _ ih
  | case6 r v rest _ _ ih
  | case7 r v rest _ _ _ ih
  | case8 r v rest _ _ _ _ ih =>
    refine ih (so.option (by decide) rfl fun o rest => ?_)
    simp [foregroundOptions, ForegroundOptions.under, ResourceArgs.onto]
  | case9 r v rest _ _ _ _ _ ih => exact ih ⟨so.reads, so.leads⟩
  | case10 r a v rest _ _ _ _ _ _ size _ ih => exact ih ⟨so.reads, so.leads⟩
  | case11 r a v rest _ _ _ _ _ _ _ ih => exact ih so

theorem passed : (parseResourceArgs args).Passed filePath := passed_from passed_none

end

namespace Machine

variable {Place : Type} {m : Machine Place} {p : Program} {files made : Files Place}
  {args : List String} {c : RuntimeConfig} {path template dest ds : String} {resize : Content → Content} {bytes : Nat}

/-- With bounds that the processors of the configuration keep, the run takes what was passed through. -/
theorem foregroundConfig_passed
    (bounded : ¬ ((m.resolveConfigFromArgs p files args).cpuCount < 1 ∨
      8 < (m.resolveConfigFromArgs p files args).cpuCount)) :
    m.foregroundConfig p files (parseResourceArgs args).passthrough = some (m.resolveConfigFromArgs p files args) := by
  have passed : (parseResourceArgs args).Passed m.filePath := passed
  have reads := passed.reads ⟨m.fromEnvironment files p, false⟩ []
  rw [List.append_nil, foregroundOptions] at reads
  rw [foregroundConfig, if_pos passed.leads, reads]
  exact if_neg fun clamped => bounded clamped.2.1

/-! ## Checks -/

theorem validate_iff : m.validate files c = none ↔
    (1 ≤ c.cpuCount ∧ c.cpuCount ≤ 8) ∧ m.memoryValidationError c.memoryMIB = none ∧
    m.fileExists files c.kernel = true ∧ m.fileExists files c.initramfs = true ∧
    m.guestAssetValidationError files c.kernel c.initramfs = none ∧
    (m.fileExists files c.disk = true → m.typeRegular files c.disk = true) := by
  rw [validate]
  by_cases least : c.cpuCount < 1
  · rw [if_pos least]
    exact iff_of_false nofun fun all => by omega
  rw [if_neg least]
  by_cases most : c.cpuCount < 1 ∨ 8 < c.cpuCount
  · rw [if_pos most]
    exact iff_of_false nofun fun all => by omega
  rw [if_neg most]
  have bounds : 1 ≤ c.cpuCount ∧ c.cpuCount ≤ 8 := by omega
  cases memory : m.memoryValidationError c.memoryMIB with
  | some error => simp
  | none =>
    cases kernel : m.fileExists files c.kernel with
    | false => simp
    | true =>
      cases initramfs : m.fileExists files c.initramfs with
      | false => simp
      | true =>
        cases assets : m.guestAssetValidationError files c.kernel c.initramfs with
        | some mismatch => simp
        | none => cases here : m.fileExists files c.disk <;> cases m.typeRegular files c.disk <;> simp [bounds]

theorem startArgsError_iff : m.startArgsError p files args = none ↔
    tokenError args = none ∧ (parseResourceArgs args).diskSize.bind (m.diskSizeRequestError files) = none ∧
    m.validate files (m.resolveConfigFromArgs p files args) = none ∧
    (m.provisions p files args = true ∨
      (m.diskIdentity files (m.resolveConfigFromArgs p files args).disk).isSome = true) := by
  rw [startArgsError]
  cases tokenError args with
  | some rejected => simp
  | none =>
    cases (parseResourceArgs args).diskSize.bind (m.diskSizeRequestError files) with
    | some rejected => simp
    | none =>
      dsimp only
      cases m.validate files (m.resolveConfigFromArgs p files args) with
      | some invalid => simp
      | none =>
        cases m.provisions p files args <;>
          cases m.diskIdentity files (m.resolveConfigFromArgs p files args).disk <;> simp

theorem diskSizeRequestError_iff : m.diskSizeRequestError files ds = none ↔
    ∃ bytes, parseDiskSize ds = some bytes ∧ minProvisionBytes ≤ bytes ∧
      ∀ existing, m.existingUserDiskPath files = some existing → bytes = m.logicalSize files existing := by
  rw [diskSizeRequestError]
  cases parseDiskSize ds with
  | none => simp
  | some bytes =>
    by_cases least : bytes < minProvisionBytes
    · simp [least, Nat.not_le.mpr least]
    · cases m.existingUserDiskPath files with
      | none => simp [least, Nat.le_of_not_lt least]
      | some existing =>
        by_cases same : bytes = m.logicalSize files existing <;> simp [least, same, Nat.le_of_not_lt least]

theorem diskIdentity_isSome : (m.diskIdentity files path).isSome = true ↔
    ∃ content, files (m.reach path) = some (.regular content) := by
  rw [diskIdentity]
  cases files (m.reach path) with
  | none => simp
  | some node => cases node <;> simp

theorem contents_regular {content : Content} (here : files (m.reach path) = some (.regular content)) :
    m.contents files path = some content.bytes := by
  rw [contents, here]

theorem fileExists_regular {content : Content} (here : files (m.reach path) = some (.regular content)) :
    m.fileExists files path = true := by
  rw [fileExists, here]
  rfl

theorem fileExists_of_identity (regular : (m.diskIdentity files path).isSome = true) :
    m.fileExists files path = true := by
  obtain ⟨content, here⟩ := diskIdentity_isSome.mp regular
  exact fileExists_regular here

theorem fileExists_of_contents {data : Wire.Bytes} (read : m.contents files path = some data) :
    m.fileExists files path = true := by
  rw [contents] at read
  rw [fileExists]
  cases here : files (m.reach path) with
  | none =>
    rw [here] at read
    cases read
  | some node => rfl

theorem fileExists_filePath : m.fileExists files (m.filePath path) = m.fileExists files path := by
  rw [fileExists, fileExists, m.reach_filePath]

/-- Nothing is at the destination when there is no disk. -/
theorem dest_missing (none : m.existingUserDiskPath files = none) :
    m.fileExists files m.defaultRootDiskDestination = false := by
  have all := List.find?_eq_none.mp none m.defaultRootDiskDestination List.mem_cons_self
  exact Bool.eq_false_iff.mpr all

theorem existing_of_dest (here : m.fileExists files m.defaultRootDiskDestination = true) :
    m.existingUserDiskPath files = some m.defaultRootDiskDestination :=
  List.find?_cons_of_pos here

/-! ## The disk that is made -/

section

variable [DecidableEq Place]

/-- What is at the destination after the copy. -/
theorem copyTemplate_dest : m.copyTemplate files template dest resize (m.reach dest) =
    (files (m.reach template)).map fun
      | .regular content => .regular (resize content)
      | .other => .other := by
  rw [copyTemplate, if_pos rfl]
  cases files (m.reach template) with
  | none => rfl
  | some node => cases node <;> rfl

theorem copyTemplate_of_ne (other : m.reach path ≠ m.reach dest) :
    m.copyTemplate files template dest resize (m.reach path) = files (m.reach path) := if_neg other

/-- What there is stays when a new file is made. -/
theorem copyTemplate_keeps (new : m.fileExists files dest = false) (here : m.fileExists files path = true) :
    m.copyTemplate files template dest resize (m.reach path) = files (m.reach path) := by
  refine copyTemplate_of_ne fun same => ?_
  rw [fileExists, same] at here
  rw [fileExists, here] at new
  cases new

end

/-! ## The spawned run -/

/-- A default matters where no layer over it is given. -/
theorem default_same_iff {option environment : Option String} {f : String → String} {x y : String} :
    (option.map f).getD ((environment.map f).getD x) = (option.map f).getD ((environment.map f).getD y) ↔
      (option = none → environment = none → x = y) := by
  cases option <;> cases environment <;> simp

/-- The program and the files matter to a configuration by the guest assets and the default disk only. -/
theorem resolveConfig_same_iff (same : m.resolveRootDiskPath made = m.resolveRootDiskPath files) :
    m.resolveConfigFromArgs (m.child (m.resolveExecutable p)) made args = m.resolveConfigFromArgs p files args ↔
      m.SameAssets p args := by
  rw [resolveConfigFromArgs, resolveConfigFromArgs, RuntimeConfig.mk.injEq]
  dsimp only [fromEnvironment]
  rw [same, default_same_iff, default_same_iff]
  exact ⟨fun all => ⟨all.2.2.1, all.2.2.2.1⟩, fun assets => ⟨rfl, rfl, assets.kernel, assets.initramfs, rfl⟩⟩

theorem resolveConfig_files (same : m.resolveRootDiskPath made = m.resolveRootDiskPath files) :
    m.resolveConfigFromArgs p made args = m.resolveConfigFromArgs p files args := by
  rw [resolveConfigFromArgs, resolveConfigFromArgs, fromEnvironment, fromEnvironment, same]

theorem resolveRootDiskPath_made (none : m.existingUserDiskPath files = none)
    (here : m.fileExists made m.defaultRootDiskDestination = true) :
    m.resolveRootDiskPath made = m.resolveRootDiskPath files := by
  rw [resolveRootDiskPath, resolveRootDiskPath, none, existing_of_dest here]
  rfl

/-- The spawned run takes the configuration that was checked where it finds the same guest assets. -/
theorem foreground_iff (same : m.resolveRootDiskPath made = m.resolveRootDiskPath files)
    (valid : m.validate files (m.resolveConfigFromArgs p files args) = none) :
    m.foregroundConfig (m.child (m.resolveExecutable p)) made (parseResourceArgs args).passthrough =
        some (m.resolveConfigFromArgs p files args) ↔ m.SameAssets p args := by
  obtain ⟨⟨least, most⟩, _⟩ := validate_iff.mp valid
  have bounded : ¬ ((m.resolveConfigFromArgs (m.child (m.resolveExecutable p)) made args).cpuCount < 1 ∨
      8 < (m.resolveConfigFromArgs (m.child (m.resolveExecutable p)) made args).cpuCount) := by
    change ¬ ((m.resolveConfigFromArgs p files args).cpuCount < 1 ∨
      8 < (m.resolveConfigFromArgs p files args).cpuCount)
    omega
  rw [foregroundConfig_passed bounded, Option.some.injEq]
  exact resolveConfig_same_iff same

section

variable [DecidableEq Place] {a : Answers}

/-- Where nothing fails, what a start does is decided by its checks and by the disks that it makes. -/
theorem handleStart_runs_iff (answered : a.AllSucceed) : (m.handleStart a p files args).Runs m c ↔
    ∃ made, m.provisionRequested p files args = .ok made ∧ m.startArgsError p made args = none ∧
      let disk := m.provisionedRootDisk made p (m.resolveConfigFromArgs p made args).disk
      (m.diskIdentity disk.2 disk.1).isSome = true ∧
        m.foregroundConfig (m.child (m.resolveExecutable p)) disk.2 (parseResourceArgs args).passthrough = some c := by
  rw [handleStart, answered.engineFound, if_neg Bool.false_ne_true, answered.supportError]
  dsimp only
  cases m.provisionRequested p files args with
  | error rejected =>
    refine iff_of_false id ?_
    rintro ⟨_, none, _⟩
    cases none
  | ok made =>
    simp only [Except.ok.injEq, exists_eq_left']
    cases m.startArgsError p made args with
    | some rejected => exact iff_of_false id fun all => by cases all.1
    | none =>
      dsimp only
      generalize m.provisionedRootDisk made p (m.resolveConfigFromArgs p made args).disk = disk
      cases identity : m.diskIdentity disk.2 disk.1 with
      | none =>
        rw [if_pos (by rw [Option.isNone_none, Bool.or_true])]
        exact iff_of_false id fun all => by cases all.2.1
      | some place =>
        have here : m.fileExists disk.2 disk.1 = true := fileExists_of_identity (by rw [identity]; rfl)
        rw [here, if_neg (by simp), answered.logOpens, if_neg (by simp), answered.spawnError]
        exact ⟨fun runs => ⟨rfl, rfl, runs⟩, fun all => all.2.2⟩

/-! ## The check after the disk was made -/

theorem truncate_size {content : Content} : (content.truncate bytes).size = bytes := by
  rw [Content.truncate, Content.size, List.length_take]
  dsimp only
  omega

theorem contents_keeps (new : m.fileExists files dest = false) (here : m.fileExists files path = true) :
    m.contents (m.copyTemplate files template dest resize) path = m.contents files path := by
  rw [contents, contents, copyTemplate_keeps new here]

theorem fileExists_keeps (new : m.fileExists files dest = false) (here : m.fileExists files path = true) :
    m.fileExists (m.copyTemplate files template dest resize) path = true := by
  rw [fileExists, copyTemplate_keeps new here]
  exact here

/-- Guest assets that match go on matching. -/
theorem assets_keep {kernel initramfs : String} (new : m.fileExists files dest = false)
    (hereKernel : m.fileExists files kernel = true) (hereInitramfs : m.fileExists files initramfs = true)
    (matching : m.guestAssetValidationError files kernel initramfs = none) :
    m.guestAssetValidationError (m.copyTemplate files template dest resize) kernel initramfs = none := by
  rw [guestAssetValidationError] at matching ⊢
  cases manifest : m.contents files (deletingLastPathComponent kernel ++ "/guest-assets.manifest") with
  | none =>
    rw [manifest] at matching
    cases matching
  | some data =>
    rw [contents_keeps new (fileExists_of_contents manifest), contents_keeps new hereKernel,
      contents_keeps new hereInitramfs]
    exact matching

theorem dest_made (here : m.fileExists files template = true) :
    m.fileExists (m.copyTemplate files template dest resize) dest = true := by
  rw [fileExists, copyTemplate_dest, Option.isSome_map]
  exact here

/-- The file that is made is regular where the template is. -/
theorem identity_made (same : m.reach path = m.reach dest) :
    (m.diskIdentity (m.copyTemplate files template dest resize) path).isSome =
      (m.diskIdentity files template).isSome := by
  rw [diskIdentity, diskIdentity, same, copyTemplate_dest]
  cases files (m.reach template) with
  | none => rfl
  | some node => cases node <;> rfl

/-- The made file has the size that it was given, if it is a regular file and its name no link. -/
theorem size_made (positive : 0 < bytes) :
    bytes = m.logicalSize (m.copyTemplate files template dest (·.truncate bytes)) dest ↔
      (m.diskIdentity files template).isSome = true ∧ m.isLink dest = false := by
  rw [logicalSize, copyTemplate_dest, diskIdentity]
  cases files (m.reach template) with
  | none => simp [Nat.pos_iff_ne_zero.mp positive]
  | some node =>
    cases node with
    | other => simp [Nat.pos_iff_ne_zero.mp positive]
    | regular content => cases m.isLink dest <;> simp [truncate_size, Nat.pos_iff_ne_zero.mp positive]

/-- With the disk made, the disk that is asked for is accepted if it was there or is the one that was made. -/
theorem disk_made (new : m.fileExists files dest = false) (regular : (m.diskIdentity files template).isSome = true)
    (before : m.fileExists files path = true → m.typeRegular files path = true) :
    m.typeRegular (m.copyTemplate files template dest resize) path = true ↔
      m.fileExists files path = true ∨ m.reach path = m.reach dest ∧ m.isLink path = false := by
  by_cases here : m.fileExists files path = true
  · have keeps : m.typeRegular (m.copyTemplate files template dest resize) path = m.typeRegular files path := by
      rw [typeRegular, typeRegular, diskIdentity, diskIdentity, copyTemplate_keeps new here]
    rw [keeps]
    exact iff_of_true (before here) (.inl here)
  · by_cases same : m.reach path = m.reach dest
    · rw [typeRegular, identity_made same, regular]
      simp [here, same]
    · have missing : files (m.reach path) = none := by
        rw [fileExists] at here
        exact Option.not_isSome_iff_eq_none.mp here
      rw [typeRegular, diskIdentity, copyTemplate_of_ne same, missing]
      simp [here, same]

/-- A check that passes at the files after the disk was made, where the first one passed. -/
theorem startArgsError_made {ds : String} (accepted : m.startArgsError p files args = none)
    (none : m.existingUserDiskPath files = none) (given : (parseResourceArgs args).diskSize = some ds)
    (size : parseDiskSize ds = some bytes) (here : m.fileExists files (m.rootTemplate p) = true) :
    let disk := (m.resolveConfigFromArgs p files args).disk
    m.startArgsError p (m.copyTemplate files (m.rootTemplate p) m.defaultRootDiskDestination (·.truncate bytes)) args =
        Option.none ↔
      (m.diskIdentity files (m.rootTemplate p)).isSome = true ∧ m.isLink m.defaultRootDiskDestination = false ∧
      (m.fileExists files disk = true ∨
        m.reach disk = m.reach m.defaultRootDiskDestination ∧ m.isLink disk = false) := by
  obtain ⟨tokens, sizes, valid, _⟩ := startArgsError_iff.mp accepted
  have new := dest_missing none
  generalize made : m.copyTemplate files (m.rootTemplate p) m.defaultRootDiskDestination (·.truncate bytes) = after
  have there : m.existingUserDiskPath after = some m.defaultRootDiskDestination :=
    existing_of_dest (made ▸ dest_made here)
  have same : m.resolveConfigFromArgs p after args = m.resolveConfigFromArgs p files args :=
    resolveConfig_files (resolveRootDiskPath_made none (made ▸ dest_made here))
  have settled : m.provisions p after args = false := by
    rw [provisions, wouldProvisionRootDisk, there]
    simp
  rw [given, Option.bind_some] at sizes
  obtain ⟨n, parsed, least, _⟩ := diskSizeRequestError_iff.mp sizes
  cases size.symm.trans parsed
  have positive : 0 < bytes := Nat.lt_of_lt_of_le (by decide) least
  have sized : m.diskSizeRequestError after ds = Option.none ↔
      (m.diskIdentity files (m.rootTemplate p)).isSome = true ∧ m.isLink m.defaultRootDiskDestination = false := by
    have fits : bytes = m.logicalSize after m.defaultRootDiskDestination ↔ _ := made ▸ size_made positive
    rw [diskSizeRequestError_iff, ← fits]
    constructor
    · rintro ⟨_, again, _, fits⟩
      cases size.symm.trans again
      exact fits _ there
    · intro fits
      refine ⟨bytes, size, least, fun existing found => ?_⟩
      cases there.symm.trans found
      exact fits
  obtain ⟨bounds, memory, kernel, initramfs, assets, disk⟩ := validate_iff.mp valid
  have validAfter : m.validate after (m.resolveConfigFromArgs p files args) = Option.none ↔
      (m.fileExists after (m.resolveConfigFromArgs p files args).disk = true →
        m.typeRegular after (m.resolveConfigFromArgs p files args).disk = true) := by
    subst made
    rw [validate_iff]
    exact ⟨fun all => all.2.2.2.2.2, fun regular => ⟨bounds, memory, fileExists_keeps new kernel,
      fileExists_keeps new initramfs, assets_keep new kernel initramfs assets, regular⟩⟩
  rw [startArgsError_iff, given, Option.bind_some, same, settled, sized, validAfter]
  have accepts (regular : (m.diskIdentity files (m.rootTemplate p)).isSome = true) :
      m.typeRegular after (m.resolveConfigFromArgs p files args).disk = true ↔ _ := made ▸ disk_made new regular disk
  constructor
  · rintro ⟨_, ⟨regular, plain⟩, whole, impossible | identity⟩
    · cases impossible
    · exact ⟨regular, plain, (accepts regular).mp (whole (fileExists_of_identity identity))⟩
  · rintro ⟨regular, plain, asked⟩
    have accepted := (accepts regular).mpr asked
    exact ⟨tokens, ⟨regular, plain⟩, fun _ => accepted, .inr (Bool.and_eq_true_iff.mp accepted).2⟩

/-! ## The start after the stop -/

/-- Nothing is made where nothing is to be made. -/
theorem provisionedRootDisk_settled (settled : m.provisions p files args = false) :
    m.provisionedRootDisk files p (m.resolveConfigFromArgs p files args).disk =
      ((m.resolveConfigFromArgs p files args).disk, files) := by
  obtain ⟨_, would⟩ := Bool.or_eq_false_iff.mp settled
  rw [provisionedRootDisk, would]
  exact if_neg Bool.false_ne_true

/-- The first run's disk is made from the template. -/
theorem provisionedRootDisk_made {url : String} (would : m.wouldProvisionRootDisk files p url = true) :
    m.existingUserDiskPath files = none ∧ m.fileExists files (m.rootTemplate p) = true ∧
      m.provisionedRootDisk files p url = (m.filePath m.defaultRootDiskDestination,
        m.copyTemplate files (m.rootTemplate p) m.defaultRootDiskDestination m.grown) := by
  have parts := would
  rw [wouldProvisionRootDisk] at parts
  obtain ⟨⟨_, none⟩, here⟩ : (_ ∧ _) ∧ _ := by simpa only [Bool.and_eq_true] using parts
  have none := Option.isNone_iff_eq_none.mp none
  refine ⟨none, here, ?_⟩
  have other : m.filePath m.defaultRootDiskDestination ≠ m.rootTemplate p := by
    intro same
    have missing := dest_missing none
    rw [← fileExists_filePath, same, here] at missing
    cases missing
  rw [provisionedRootDisk, if_pos would, provisionDefaultRootDisk, none]
  dsimp only
  rw [if_pos here]
  dsimp only
  rw [if_neg other]

/-- A start that makes the disk of the size that is asked for. -/
theorem handleStart_requested (answered : a.AllSucceed) (accepted : m.startArgsError p files args = none)
    (requested : m.requestsDisk files args = true) :
    (m.handleStart a p files args).Runs m (m.resolveConfigFromArgs p files args) ↔ m.StartsAgain p files args := by
  obtain ⟨given, missing⟩ := Bool.and_eq_true_iff.mp requested
  obtain ⟨ds, given⟩ := Option.isSome_iff_exists.mp given
  have none := Option.isNone_iff_eq_none.mp missing
  obtain ⟨_, sizes, valid, _⟩ := startArgsError_iff.mp accepted
  rw [given, Option.bind_some] at sizes
  obtain ⟨bytes, size, _⟩ := diskSizeRequestError_iff.mp sizes
  have new := dest_missing none
  have needed : m.provisions p files args = true := by
    rw [provisions, given, none]
    rfl
  rw [handleStart_runs_iff answered, provisionRequested, given]
  dsimp only
  rw [sizes, none]
  dsimp only
  rw [if_neg (by decide)]
  by_cases here : m.fileExists files (m.rootTemplate p) = true
  · rw [here, if_neg (by decide), new, if_neg (by decide), size, Option.getD_some]
    simp only [Except.ok.injEq, exists_eq_left']
    have checked := startArgsError_made accepted none given size here
    dsimp only at checked
    have there : m.fileExists (m.copyTemplate files (m.rootTemplate p) m.defaultRootDiskDestination
      (·.truncate bytes)) m.defaultRootDiskDestination = true := dest_made here
    generalize m.copyTemplate files (m.rootTemplate p) m.defaultRootDiskDestination (·.truncate bytes) = made
      at checked there
    have root := resolveRootDiskPath_made none there
    have settled : m.provisions p made args = false := by
      rw [provisions, wouldProvisionRootDisk, existing_of_dest there]
      simp
    rw [provisionedRootDisk_settled settled, resolveConfig_files root, foreground_iff root valid, checked]
    constructor
    · rintro ⟨⟨regular, plain, asked⟩, _, assets⟩
      exact ⟨assets, fun _ => regular, fun _ => plain, fun _ => asked⟩
    · intro all
      have passes := checked.mpr ⟨all.template needed, all.dest requested, all.disk requested⟩
      obtain ⟨_, _, _, impossible | identity⟩ := startArgsError_iff.mp passes
      · cases settled.symm.trans impossible
      · rw [resolveConfig_files root] at identity
        exact ⟨checked.mp passes, identity, all.assets⟩
  · rw [if_pos (by simpa using here)]
    refine iff_of_false ?_ fun all => here (fileExists_of_identity (all.template needed))
    rintro ⟨_, refused, _⟩
    cases refused

/-- A start that is not asked for a new disk of some size. -/
theorem handleStart_settled (answered : a.AllSucceed) (accepted : m.startArgsError p files args = none)
    (requested : m.requestsDisk files args = false) :
    (m.handleStart a p files args).Runs m (m.resolveConfigFromArgs p files args) ↔ m.StartsAgain p files args := by
  obtain ⟨_, sizes, valid, ready⟩ := startArgsError_iff.mp accepted
  have unasked : m.provisionRequested p files args = .ok files := by
    rw [provisionRequested]
    cases given : (parseResourceArgs args).diskSize with
    | none => rfl
    | some ds =>
      rw [given, Option.bind_some] at sizes
      rw [requestsDisk, given, Option.isSome_some, Bool.true_and] at requested
      dsimp only
      rw [sizes]
      exact if_pos (by simpa using requested)
  rw [handleStart_runs_iff answered, unasked]
  simp only [Except.ok.injEq, exists_eq_left', accepted, true_and]
  have needed : m.provisions p files args =
      m.wouldProvisionRootDisk files p (m.resolveConfigFromArgs p files args).disk := by
    rw [provisions, ← requestsDisk, requested, Bool.false_or]
  have unneeded {P : Prop} : m.requestsDisk files args = true → P := fun asks => by cases requested.symm.trans asks
  cases would : m.wouldProvisionRootDisk files p (m.resolveConfigFromArgs p files args).disk with
  | false =>
    rw [would] at needed
    rw [provisionedRootDisk_settled needed, foreground_iff rfl valid]
    have identity : (m.diskIdentity files (m.resolveConfigFromArgs p files args).disk).isSome = true := by
      rcases ready with impossible | identity
      · cases needed.symm.trans impossible
      · exact identity
    constructor
    · rintro ⟨_, assets⟩
      exact ⟨assets, fun needs => (by cases needed.symm.trans needs), unneeded, unneeded⟩
    · exact fun all => ⟨identity, all.assets⟩
  | true =>
    rw [would] at needed
    obtain ⟨none, here, made⟩ := provisionedRootDisk_made would
    rw [made]
    dsimp only
    rw [identity_made (m.reach_filePath _), foreground_iff (resolveRootDiskPath_made none (dest_made here)) valid]
    constructor
    · rintro ⟨regular, assets⟩
      exact ⟨assets, fun _ => regular, unneeded, unneeded⟩
    · exact fun all => ⟨all.template needed, all.assets⟩

/-- When the check of a restart passed and the engine was stopped, the start that follows spawns a run that takes the
configuration that was checked, exactly when nothing was left to a later check. -/
theorem restart_starts_iff (answered : a.AllSucceed) (accepted : m.startArgsError p files (m.restartArgs args) = none) :
    (∃ start, m.handleRestart a p files args = .stopped start ∧
      start.Runs m (m.resolveConfigFromArgs p files (m.restartArgs args))) ↔
      m.StartsAgain p files (m.restartArgs args) := by
  have starts : m.handleRestart a p files args = .stopped (m.handleStart a p files (m.restartArgs args)) := by
    rw [handleRestart, answered.controlLock, if_neg (by decide), accepted]
    exact if_neg fun failed => failed answered.stopCode
  simp only [starts, Restarted.stopped.injEq, exists_eq_left']
  cases requested : m.requestsDisk files (m.restartArgs args) with
  | true => exact handleStart_requested answered accepted requested
  | false => exact handleStart_settled answered accepted requested

end

/-! ## A disk that cannot be made -/

/-- A machine with nothing in its environment, and its guest assets in `/g`. -/
def plain : Machine String where
  environment := fun _ => none
  home := "/h"
  filePath := id
  reach := id
  isLink := fun _ => false
  reach_filePath := fun _ => rfl
  isLink_filePath := fun _ => rfl
  userConfigs := []
  loadedConfig := none
  metadata := none
  guestAssets := fun _ => "/g"
  bundleAt := some
  currentDirectory := "/"
  inPath := fun _ => none
  minimumAllowedMemorySize := 0
  maximumAllowedMemorySize := 17179869184
  sha256 := fun _ => "0"

def manifestText : String := "harpoon-guest-assets-v1\nkernel_sha256 0\ninitramfs_sha256 0\n"

/-- The guest assets, and what else there is. -/
def assetsAnd (others : List String) : Files String := fun path =>
  if path = "/g/guest-assets.manifest" then some (.regular ⟨Wire.utf8 manifestText, 0⟩)
  else if path ∈ "/g/Image-virt" :: "/g/harpoon-initramfs.cpio.gz" :: others then some (.regular ⟨[], 0⟩)
  else none

def answers : Answers := ⟨true, 0, false, none, true, none⟩

def installed : Program := ⟨"/b/harpoon", some "/b/harpoon"⟩

theorem size_8G : parseDiskSize "8G" = some 8589934592 := by decide

theorem asset_of_mem {others : List String} {path : String} (other : path ≠ "/g/guest-assets.manifest")
    (mem : path ∈ "/g/Image-virt" :: "/g/harpoon-initramfs.cpio.gz" :: others) :
    assetsAnd others (plain.reach path) = some (.regular ⟨[], 0⟩) := by
  change assetsAnd others path = _
  rw [assetsAnd, if_neg other, if_pos mem]

theorem kernel_there {others : List String} :
    assetsAnd others (plain.reach "/g/Image-virt") = some (.regular ⟨[], 0⟩) :=
  asset_of_mem (by decide) List.mem_cons_self

theorem initramfs_there {others : List String} :
    assetsAnd others (plain.reach "/g/harpoon-initramfs.cpio.gz") = some (.regular ⟨[], 0⟩) :=
  asset_of_mem (by decide) (List.mem_cons_of_mem _ List.mem_cons_self)

theorem assets_match {others : List String} : plain.guestAssetValidationError (assetsAnd others) "/g/Image-virt"
    "/g/harpoon-initramfs.cpio.gz" = none := by
  have path : deletingLastPathComponent "/g/Image-virt" ++ "/guest-assets.manifest" = "/g/guest-assets.manifest" := by
    decide
  have manifest : plain.contents (assetsAnd others) "/g/guest-assets.manifest" = some (Wire.utf8 manifestText) := by
    change some (Wire.utf8 manifestText ++ []) = _
    rw [List.append_nil]
  rw [guestAssetValidationError, path, manifest, Option.bind_some, Wire.fromUtf8_utf8, contents_regular kernel_there,
    contents_regular initramfs_there]
  decide

/-- The check of a restart accepts a disk size when there is no disk, whether or not there is a template. -/
theorem accepts_disk_size {others : List String} (missing : plain.existingUserDiskPath (assetsAnd others) = none) :
    plain.startArgsError installed (assetsAnd others) ["--disk-size", "8G"] = none := by
  have config : plain.resolveConfigFromArgs installed (assetsAnd others) ["--disk-size", "8G"] =
      ⟨2, 4096, "/g/Image-virt", "/g/harpoon-initramfs.cpio.gz", plain.defaultRootDiskDestination⟩ := by
    have root : plain.resolveRootDiskPath (assetsAnd others) = plain.defaultRootDiskDestination := by
      rw [resolveRootDiskPath, missing]
      rfl
    rw [resolveConfigFromArgs, fromEnvironment, root]
    rfl
  have given : (parseResourceArgs ["--disk-size", "8G"]).diskSize = some "8G" := by decide
  rw [startArgsError_iff, validate_iff, config, provisions, given, missing, Option.bind_some, diskSizeRequestError_iff]
  refine ⟨by decide, ⟨_, size_8G, by decide, fun existing found => ?_⟩,
    ⟨by decide, by decide, ?_, ?_, assets_match, fun here => ?_⟩, .inl rfl⟩
  · cases missing.symm.trans found
  · exact fileExists_regular kernel_there
  · exact fileExists_regular initramfs_there
  · cases (dest_missing missing).symm.trans here

theorem answers_succeed : answers.AllSucceed := ⟨rfl, rfl, rfl, rfl, rfl, rfl⟩

/-- Without a template the engine is stopped, and the start is refused. -/
theorem restart_without_template : answers.AllSucceed ∧
    plain.startArgsError installed (assetsAnd []) ["--disk-size", "8G"] = none ∧
    plain.handleRestart answers installed (assetsAnd []) ["--disk-size", "8G"] =
      .stopped (.refused ⟨1, ["template not found for provisioning"]⟩) := by
  have missing : plain.existingUserDiskPath (assetsAnd []) = none := by decide
  have accepted := accepts_disk_size missing
  have args : plain.restartArgs ["--disk-size", "8G"] = ["--disk-size", "8G"] := by decide
  have given : (parseResourceArgs ["--disk-size", "8G"]).diskSize = some "8G" := by decide
  have sized : plain.diskSizeRequestError (assetsAnd []) "8G" = none :=
    diskSizeRequestError_iff.mpr ⟨_, size_8G, by decide, fun existing found => by cases missing.symm.trans found⟩
  have unmade : plain.provisionRequested installed (assetsAnd []) ["--disk-size", "8G"] =
      .error ⟨1, ["template not found for provisioning"]⟩ := by
    rw [provisionRequested, given]
    dsimp only
    rw [sized, missing]
    dsimp only
    rw [if_neg (by decide), if_pos (by decide)]
  refine ⟨answers_succeed, accepted, ?_⟩
  rw [handleRestart, args, accepted, handleStart, unmade]
  rfl

theorem restart_with_template : ∃ start,
    plain.handleRestart answers installed (assetsAnd ["/g/harpoon-root.img"]) ["--disk-size", "8G"] = .stopped start ∧
      start.Runs plain (plain.resolveConfigFromArgs installed (assetsAnd ["/g/harpoon-root.img"])
        (plain.restartArgs ["--disk-size", "8G"])) := by
  have missing : plain.existingUserDiskPath (assetsAnd ["/g/harpoon-root.img"]) = none := by decide
  have args : plain.restartArgs ["--disk-size", "8G"] = ["--disk-size", "8G"] := by decide
  have accepted : plain.startArgsError installed (assetsAnd ["/g/harpoon-root.img"])
      (plain.restartArgs ["--disk-size", "8G"]) = none := args ▸ accepts_disk_size missing
  refine (restart_starts_iff answers_succeed accepted).mpr
    ⟨⟨fun _ _ => rfl, fun _ _ => rfl⟩, fun _ => ?_, fun _ => rfl, fun _ => ?_⟩
  · decide
  · exact .inr ⟨by decide, rfl⟩

end Machine

end Harpoon.Host
