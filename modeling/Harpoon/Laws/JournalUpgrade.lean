import Harpoon.Cli.JournalUpgrade
import Harpoon.Interact.Process

/-!
# Trying the upgrade again

What an attempt leaves behind, wherever it is cut short, and what a later one makes of it. Everything an
attempt makes carries its own timestamp, but for the space probe: an attempt that is killed before it removed
its probe leaves it, and then every later one takes the probe for a full disk.
-/

namespace Harpoon.Cli.JournalUpgrade

open Interact Process Git

/-! ## The names -/

theorem repr_inj {a b : Nat} (same : a.repr = b.repr) : a = b := by
  have chars := congrArg String.toList same
  simp only [Nat.repr, String.toList_ofList] at chars
  have least : 1 < 10 := by decide
  have most : 10 ≤ 16 := by decide
  exact Wire.toDigits_inj least most chars

theorem backupName_inj {a b : Nat} (same : backupName a = backupName b) : a = b :=
  repr_inj ((String.append_right_inj _).mp ((String.append_left_inj _).mp same))

theorem sidecarName_inj {a b : Nat} (same : sidecarName a = sidecarName b) : a = b :=
  repr_inj ((String.append_right_inj _).mp ((String.append_left_inj _).mp same))

theorem head?_backupName {a : Nat} : (backupName a).toList.head? = some 'p' := by
  unfold backupName
  rw [String.toList_append, String.toList_append, List.append_assoc]
  rfl

theorem head?_sidecarName {a : Nat} : (sidecarName a).toList.head? = some 'p' := by
  unfold sidecarName
  rw [String.toList_append, String.toList_append, List.append_assoc]
  rfl

theorem backupName_ne_probe {a : Nat} : backupName a ≠ probe := by
  intro same
  have starts := head?_backupName (a := a)
  rw [same] at starts
  exact absurd starts (by decide)

theorem sidecarName_ne_probe {a : Nat} : sidecarName a ≠ probe := by
  intro same
  have starts := head?_sidecarName (a := a)
  rw [same] at starts
  exact absurd starts (by decide)

theorem backupName_ne_sidecarName {a b : Nat} : backupName a ≠ sidecarName b := by
  have ends : (backupName a).toList.getLast? = some '3' := by
    unfold backupName
    rw [String.toList_append, List.getLast?_append]
    rfl
  have ends' : (sidecarName b).toList.getLast? = some '6' := by
    unfold sidecarName
    rw [String.toList_append, List.getLast?_append]
    rfl
  intro same
  rw [same, ends'] at ends
  cases ends

/-! ## The disk -/

/-- What is on the disk: the backups directory and the files in it, and the journal. -/
structure Disk where
  backups : Entry
  files : List String
  schema : Int
  rows : List String
  deriving DecidableEq, Repr

/-- What stays the same meanwhile. -/
structure Machine (R : Type) where
  /-- The mode and the owner of a directory that this process makes. -/
  made : Nat × Nat
  /-- The owner of the journal's directory. -/
  owner : Nat
  size : Nat
  /-- The bytes of a copy of these records. -/
  contents : List String → List Nat
  replay : List String → Except String R
  /-- The record of the removal. -/
  removal : String

variable {R : Type}

namespace Disk

def add (d : Disk) (name : String) : Disk := { d with files := name :: d.files }

def without (d : Disk) (name : String) : Disk := { d with files := d.files.filter (· ≠ name) }

/-- What an answered operation leaves. -/
def see (m : Machine R) (d : Disk) : Event (UpgradeSig R) → Disk
  | ⟨.createBackups, .ok _⟩ => if d.backups = .absent then { d with backups := .dir m.made.1 m.made.2 } else d
  | ⟨.createNew name, .ok _⟩ => d.add name
  | ⟨.removeFile name, .removed⟩ => d.without name
  | ⟨.backupInto name, .ok _⟩ => d.add name
  | ⟨.backupInto name, .error e⟩ => if e.left then d.add name else d
  | ⟨.removeRegistration, .ok _⟩ => { d with schema := 2, rows := d.rows ++ [m.removal] }
  | _ => d

def after (m : Machine R) (d : Disk) (h : History (UpgradeSig R)) : Disk := h.seen (see m) d

/-- The directory in which an attempt works. -/
def directory (m : Machine R) (d : Disk) : Entry :=
  match d.backups with
  | .absent => .dir m.made.1 m.made.2
  | e => e

end Disk

/-- How a machine answers on which nothing fails: there is room, and files are made and read as asked. -/
def Machine.answer (m : Machine R) (d : Disk) : (op : UpgradeOp) → op.Answer R
  | .declaredSchema => d.schema
  | .journalSize => .ok (ε := String) m.size
  | .inspectBackups => .ok (ε := String) d.backups
  | .createBackups => if d.backups = .absent then .ok (ε := String) () else .error (ε := String) "File exists (os error 17)"
  | .statBackups =>
    match d.backups with
    | .dir mode uid => .ok (ε := String) (mode, uid)
    | .absent | .symlink | .notDir => .error (ε := String) "No such file or directory (os error 2)"
  | .statJournalDir => .ok (ε := String) m.owner
  | .createNew name => if name ∈ d.files then .error (ε := String) "File exists (os error 17)" else .ok (ε := String) ()
  | .removeFile name => if name ∈ d.files then .removed else .absent
  | .pathExists name => decide (name ∈ d.files)
  | .recordRows => .ok (ε := String) d.rows
  | .backupInto name =>
    if name ∈ d.files then .error (ε := CopyError) ⟨"output file already exists", false⟩ else .ok (ε := CopyError) ()
  | .statFile _ => .ok (ε := String) 0o600
  | .inspectFile _ => .ok (ε := String) (⟨"ok", d.schema, d.rows⟩ : JournalFileFacts)
  | .replayFile _ => m.replay d.rows
  | .readFile _ => .ok (ε := String) (m.contents d.rows)
  | .writeBytes _ | .syncFile _ | .setPermissions _ | .syncDir | .writeText _ _ | .removeRegistration => .ok (ε := String) ()

/-! ## What an attempt may ask -/

/-- The space probe was asked for. -/
def opened (h : History (UpgradeSig R)) : Prop := ∃ a, ⟨.createNew probe, a⟩ ∈ h

/-- The files an attempt touches: the probe, once, and those of its own timestamp. -/
def Files (nowMs : Nat) (h : History (UpgradeSig R)) : UpgradeOp → Prop
  | .createNew name => name = probe ∧ ¬ opened h ∨ name = sidecarName nowMs
  | .removeFile name => name = probe ∧ opened h ∨ name = backupName nowMs ∨ name = sidecarName nowMs
  | .pathExists name => name = backupName nowMs ∨ name = sidecarName nowMs
  | .backupInto name => name = backupName nowMs
  | .inspectBackups | .createBackups | .statBackups => False
  | _ => True

/-- Or it asks for the directory. -/
def Asks (nowMs : Nat) (h : History (UpgradeSig R)) (op : UpgradeOp) : Prop :=
  Files nowMs h op ∨ op = .inspectBackups ∨ op = .createBackups ∨ op = .statBackups

/-- What a file system may answer, whatever fails on it. -/
def Honest (d : Disk) : Event (UpgradeSig R) → Prop
  | ⟨.createNew name, .ok _⟩ => name ∉ d.files
  | ⟨.pathExists name, there⟩ => there = decide (name ∈ d.files)
  | ⟨.removeFile name, .absent⟩ => name ∉ d.files
  | _ => True

def Honestly (m : Machine R) : Disk → History (UpgradeSig R) → Prop
  | _, [] => True
  | d, e :: h => Honest d e ∧ Honestly m (d.see m e) h

/-- The file system is honest, and lets the attempt remove what it made. -/
def Fair (m : Machine R) (d : Disk) (h : History (UpgradeSig R)) : Prop :=
  Honestly m d h ∧ ∀ name why, ⟨.removeFile name, .failed why⟩ ∉ h

/-- The journal and the files are the same. -/
structure Disk.Same (d e : Disk) : Prop where
  schema : e.schema = d.schema
  rows : e.rows = d.rows
  files : ∀ name, name ∈ e.files ↔ name ∈ d.files

/-- Files of this timestamp were made, and there was none before. -/
structure Disk.Within (nowMs : Nat) (d e : Disk) : Prop where
  schema : e.schema = d.schema
  rows : e.rows = d.rows
  kept : ∀ name, name ∈ d.files → name ∈ e.files
  made : ∀ name, name ∈ e.files → name ∈ d.files ∨ name = backupName nowMs ∨ name = sidecarName nowMs
  noBackup : backupName nowMs ∉ d.files
  noSidecar : sidecarName nowMs ∉ d.files

section

variable {m : Machine R} {d e : Disk} {h k : History (UpgradeSig R)} {ev : Event (UpgradeSig R)} {nowMs : Nat}
  {name : String}

namespace Disk

theorem after_append : d.after m (h ++ k) = (d.after m h).after m k := List.foldl_append

theorem mem_add {other : String} : name ∈ (d.add other).files ↔ name = other ∨ name ∈ d.files := List.mem_cons

theorem mem_without {other : String} : name ∈ (d.without other).files ↔ name ∈ d.files ∧ name ≠ other := by
  simp [without]

/-- What an answered operation leaves of the directory, and what it can add. -/
theorem see_cases (ev : Event (UpgradeSig R)) : (d.see m ev).directory m = d.directory m ∧
    ∀ name ∈ (d.see m ev).files, name ∈ d.files ∨ ev = ⟨.createNew name, Except.ok ()⟩ ∨ ev.op = .backupInto name := by
  obtain ⟨op, answer⟩ := ev
  cases op with
  | createBackups =>
    cases answer with
    | error _ => exact ⟨rfl, fun _ => .inl⟩
    | ok _ =>
      unfold see
      dsimp only
      split
      next absent => exact ⟨by simp [directory, absent], fun _ => .inl⟩
      next => exact ⟨rfl, fun _ => .inl⟩
  | createNew other =>
    cases answer with
    | error _ => exact ⟨rfl, fun _ => .inl⟩
    | ok _ => exact ⟨rfl, fun name mem => (mem_add.mp mem).elim (fun same => .inr (.inl (same ▸ rfl))) .inl⟩
  | backupInto other =>
    have added : ∀ name ∈ (d.add other).files, name ∈ d.files ∨
        (⟨.backupInto other, answer⟩ : Event (UpgradeSig R)) = ⟨.createNew name, Except.ok ()⟩ ∨
        UpgradeOp.backupInto other = .backupInto name :=
      fun name mem => (mem_add.mp mem).elim (fun same => .inr (.inr (same ▸ rfl))) .inl
    cases answer with
    | ok _ => exact ⟨rfl, added⟩
    | error e =>
      unfold see
      dsimp only
      split
      · exact ⟨rfl, added⟩
      · exact ⟨rfl, fun _ => .inl⟩
  | removeFile other =>
    cases answer with
    | removed => exact ⟨rfl, fun name mem => .inl (mem_without.mp mem).1⟩
    | absent | failed _ => exact ⟨rfl, fun _ => .inl⟩
  | removeRegistration => cases answer <;> exact ⟨rfl, fun _ => .inl⟩
  | declaredSchema | journalSize | inspectBackups | statBackups | statJournalDir | writeBytes _ | syncFile _ | pathExists _
  | recordRows | setPermissions _ | syncDir | statFile _ | inspectFile _ | replayFile _ | readFile _ | writeText _ _ =>
    exact ⟨rfl, fun _ => .inl⟩

theorem directory_after : (d.after m h).directory m = d.directory m := by
  induction h generalizing d with
  | nil => rfl
  | cons e h ih => exact ih.trans (see_cases e).1

theorem mem_after (mem : name ∈ (d.after m h).files) :
    name ∈ d.files ∨ ∃ e ∈ h, e = ⟨.createNew name, Except.ok ()⟩ ∨ e.op = .backupInto name := by
  induction h generalizing d with
  | nil => exact .inl mem
  | cons e h ih =>
    rcases ih mem with old | ⟨e', within, made⟩
    · rcases (see_cases e).2 name old with old | made
      · exact .inl old
      · exact .inr ⟨e, List.mem_cons_self, made⟩
    · exact .inr ⟨e', List.mem_cons_of_mem _ within, made⟩

end Disk

theorem honestly_append : Honestly m d (h ++ k) ↔ Honestly m d h ∧ Honestly m (d.after m h) k := by
  induction h generalizing d with
  | nil => exact ⟨fun honest => ⟨trivial, honest⟩, And.right⟩
  | cons e h ih =>
    show Honest d e ∧ Honestly m (d.see m e) (h ++ k) ↔ (Honest d e ∧ Honestly m (d.see m e) h) ∧ _
    rw [ih, and_assoc]
    rfl

theorem Fair.split (fair : Fair m d (h ++ [ev])) :
    Fair m d h ∧ Honest (d.after m h) ev ∧ ∀ name why, ev ≠ ⟨.removeFile name, .failed why⟩ := by
  obtain ⟨honest, removes⟩ := fair
  obtain ⟨before, last, _⟩ := honestly_append.mp honest
  exact ⟨⟨before, fun name why mem => removes name why (List.mem_append_left _ mem)⟩, last,
    fun name why same => removes name why (List.mem_append_right _ (List.mem_singleton.mpr same.symm))⟩

end

/-! ## One attempt -/

/-- Whatever is answered, the files and the journal are left as they are. -/
def Idle (m : Machine R) (op : UpgradeOp) : Prop := ∀ (d : Disk) (a : op.Answer R),
  (d.see m ⟨op, a⟩).schema = d.schema ∧ (d.see m ⟨op, a⟩).rows = d.rows ∧ (d.see m ⟨op, a⟩).files = d.files

/-- Nothing was made, or all of it was removed. -/
def Quiet (m : Machine R) (d : Disk) (h : History (UpgradeSig R)) : Prop := Fair m d h → d.Same (d.after m h)

/-- The attempt made files of its own timestamp only. -/
def Making (m : Machine R) (d : Disk) (nowMs : Nat) (h : History (UpgradeSig R)) : Prop :=
  Fair m d h → d.Within nowMs (d.after m h)

/-- Nothing was made, and the probe was not asked for. -/
structure Starting (m : Machine R) (d : Disk) (h : History (UpgradeSig R)) : Prop where
  quiet : Quiet m d h
  closed : ¬ opened h

section

variable {m : Machine R} {d : Disk} {h : History (UpgradeSig R)} {op : UpgradeOp} {a : op.Answer R} {nowMs : Nat}
  {rule : History (UpgradeSig R) → UpgradeOp → Prop} {α : Type}

theorem meets_ask {post : op.Answer R → Unit → History (UpgradeSig R) → Prop}
    {fail : Fail → Unit → History (UpgradeSig R) → Prop} :
    Meets remember rule (ask op) post fail () h ↔ rule h op ∧ ∀ a, post a () (h ++ [⟨op, a⟩]) := Iff.rfl

theorem orFail_meets {why : String → Fail} {x : Except String α} {post : α → Unit → History (UpgradeSig R) → Prop}
    {fail : Fail → Unit → History (UpgradeSig R) → Prop} (ok : ∀ a, post a () h) (error : ∀ f, fail f () h) :
    Meets remember rule (orFail why x) post fail () h :=
  meets_ofExcept (fun a _ => ok a) fun _ _ => error _

theorem after_idle (idle : Idle m op) : ((d.after m h).see m ⟨op, a⟩).schema = (d.after m h).schema ∧
    ((d.after m h).see m ⟨op, a⟩).rows = (d.after m h).rows ∧ ((d.after m h).see m ⟨op, a⟩).files = (d.after m h).files :=
  idle _ _

theorem Quiet.start : Quiet m d [] := fun _ => ⟨rfl, rfl, fun _ => Iff.rfl⟩

theorem Quiet.asked (quiet : Quiet m d h) (idle : Idle m op) : Quiet m d (h ++ [⟨op, a⟩]) := by
  intro fair
  obtain ⟨schema, rows, files⟩ := quiet fair.split.1
  obtain ⟨schema', rows', files'⟩ : _ ∧ _ ∧ _ := after_idle (d := d) (h := h) (a := a) idle
  rw [Disk.after_append]
  exact ⟨schema'.trans schema, rows'.trans rows, fun name => by
    show name ∈ ((d.after m h).see m ⟨op, a⟩).files ↔ _
    rw [files']
    exact files name⟩

theorem Starting.asked (starting : Starting m d h) (idle : Idle m op) (other : op ≠ .createNew probe) :
    Starting m d (h ++ [⟨op, a⟩]) where
  quiet := starting.quiet.asked idle
  closed := by
    rintro ⟨b, mem⟩
    rcases List.mem_append.mp mem with old | new
    · exact starting.closed ⟨b, old⟩
    · exact other (congrArg Event.op (List.mem_singleton.mp new)).symm

theorem Making.asked (making : Making m d nowMs h) (idle : Idle m op) : Making m d nowMs (h ++ [⟨op, a⟩]) := by
  intro fair
  obtain ⟨schema, rows, kept, made, noBackup, noSidecar⟩ := making fair.split.1
  obtain ⟨schema', rows', files'⟩ : _ ∧ _ ∧ _ := after_idle (d := d) (h := h) (a := a) idle
  have files : (d.after m (h ++ [⟨op, a⟩])).files = (d.after m h).files := by
    rw [Disk.after_append]
    exact files'
  rw [Disk.after_append] at files ⊢
  refine ⟨schema'.trans schema, rows'.trans rows, fun name mem => ?_, fun name mem => ?_, noBackup, noSidecar⟩
  · rw [files]; exact kept name mem
  · rw [files] at mem; exact made name mem

/-- A file of this timestamp was made. -/
theorem Making.added {name : String} {ev : Event (UpgradeSig R)} (making : Making m d nowMs h)
    (adds : ∀ e : Disk, e.see m ev = e.add name ∨ e.see m ev = e)
    (own : name = backupName nowMs ∨ name = sidecarName nowMs) : Making m d nowMs (h ++ [ev]) := by
  intro fair
  obtain ⟨schema, rows, kept, made, noBackup, noSidecar⟩ := making fair.split.1
  rw [Disk.after_append]
  show d.Within nowMs ((d.after m h).see m ev)
  rcases adds (d.after m h) with added | same
  · rw [added]
    refine ⟨schema, rows, fun other mem => Disk.mem_add.mpr (.inr (kept other mem)), fun other mem => ?_, noBackup, noSidecar⟩
    exact (Disk.mem_add.mp mem).elim (fun same => .inr (same ▸ own)) (made other)
  · rw [same]
    exact ⟨schema, rows, kept, made, noBackup, noSidecar⟩

/-- A fair removal leaves the other files. -/
theorem see_removeFile {name : String} {a : Removal} (honest : Honest d (⟨.removeFile name, a⟩ : Event (UpgradeSig R)))
    (works : ∀ why, a ≠ .failed why) : d.see m ⟨.removeFile name, a⟩ = d.without name := by
  cases a with
  | removed => rfl
  | absent =>
    have gone : name ∉ d.files := honest
    have all : d.files.filter (· ≠ name) = d.files := List.filter_eq_self.mpr fun other mem =>
      decide_eq_true fun same => gone (same ▸ mem)
    show d = { d with files := d.files.filter (· ≠ name) }
    rw [all]
  | failed why => exact absurd rfl (works why)

theorem Fair.removed {name : String} {a : Removal} (fair : Fair m d (h ++ [⟨.removeFile name, a⟩])) :
    d.after m (h ++ [⟨.removeFile name, a⟩]) = (d.after m h).without name := by
  obtain ⟨_, honest, works⟩ := fair.split
  rw [Disk.after_append]
  exact see_removeFile honest fun why same => works _ why (by rw [same])

/-- Cleaning up removes what was made. -/
theorem cleanup_meets {f : Fail} {post : α → Unit → History (UpgradeSig R) → Prop} (making : Making m d nowMs h) :
    Meets remember (Files nowMs) (cleanup nowMs f) post (fun _ _ h => Quiet m d h) () h := by
  refine meets_bind.mpr (meets_ask.mpr ⟨.inr (.inl rfl), fun a => meets_bind.mpr (meets_ask.mpr ⟨.inr (.inr rfl), fun b => ?_⟩)⟩)
  refine meets_throw.mpr fun fair => ?_
  obtain ⟨schema, rows, kept, made, noBackup, noSidecar⟩ := making fair.split.1.split.1
  rw [fair.removed, fair.split.1.removed]
  refine ⟨schema, rows, fun name => ?_⟩
  rw [Disk.mem_without, Disk.mem_without]
  constructor
  · rintro ⟨⟨mem, notBackup⟩, notSidecar⟩
    rcases made name mem with old | same | same
    · exact old
    · exact absurd same notBackup
    · exact absurd same notSidecar
  · exact fun mem => ⟨⟨kept name mem, fun same => noBackup (same ▸ mem)⟩, fun same => noSidecar (same ▸ mem)⟩

theorem orCleanup_meets {why : String → Fail} {x : Except String α} {post : α → Unit → History (UpgradeSig R) → Prop}
    (making : Making m d nowMs h) (ok : ∀ a, post a () h) :
    Meets remember (Files nowMs) (orCleanup nowMs why x) post (fun _ _ h => Quiet m d h) () h := by
  cases x with
  | ok a => exact ok a
  | error e => exact cleanup_meets making

/-! ### Its parts -/

variable (dir live : String) (digest : List Nat → String)

/-- An idle operation whose error ends the attempt. -/
theorem askOrFail_meets {why : String → Fail} {x : op.Answer R → Except String α} {β : Type} {f : α → Upgrading R β}
    {post : β → Unit → History (UpgradeSig R) → Prop} (starting : Starting m d h) (allowed : rule h op) (idle : Idle m op)
    (other : op ≠ .createNew probe)
    (rest : ∀ a h, Starting m d h → Meets remember rule (f a) post (fun _ _ h => Quiet m d h) () h) :
    Meets remember rule (do f (← orFail why (x (← ask op)))) post (fun _ _ h => Quiet m d h) () h :=
  meets_bind.mpr (meets_ask.mpr ⟨allowed, fun _ => meets_bind.mpr (orFail_meets
    (fun value => rest value _ (starting.asked idle other)) fun _ => starting.quiet.asked idle)⟩)

theorem idle_createBackups : Idle m .createBackups := by
  intro d a
  cases a with
  | error _ => exact ⟨rfl, rfl, rfl⟩
  | ok _ =>
    unfold Disk.see
    dsimp only
    split <;> exact ⟨rfl, rfl, rfl⟩

theorem refuseShared_meets (starting : Starting m d h) :
    Meets remember (Asks nowMs) (refuseShared dir) (fun _ _ h => Starting m d h) (fun _ _ h => Quiet m d h) () h := by
  refine askOrFail_meets starting (Or.inr (.inr (.inr rfl))) (fun _ _ => ⟨rfl, rfl, rfl⟩) (by simp) fun facts h starting => ?_
  refine askOrFail_meets starting (Or.inl trivial) (fun _ _ => ⟨rfl, rfl, rfl⟩) (by simp) fun owner h starting => ?_
  exact orFail_meets (fun _ => starting) fun _ => starting.quiet

theorem privateBackupsDir_meets (starting : Starting m d h) :
    Meets remember (Asks nowMs) (privateBackupsDir dir) (fun _ _ h => Starting m d h) (fun _ _ h => Quiet m d h) () h := by
  refine askOrFail_meets starting (Or.inr (.inl rfl)) (fun _ _ => ⟨rfl, rfl, rfl⟩) (by simp) fun entry h starting => ?_
  cases entry with
  | symlink | notDir => exact starting.quiet
  | dir mode uid => exact refuseShared_meets dir starting
  | absent =>
    refine meets_bind.mpr (meets_bind.mpr (meets_ask.mpr ⟨.inr (.inr (.inl rfl)), fun a => ?_⟩))
    have made : Starting m d (h ++ [⟨.createBackups, a⟩]) := starting.asked idle_createBackups (by simp)
    exact orFail_meets (fun _ => refuseShared_meets dir made) fun _ => made.quiet

theorem fill_meets (pieces : List Nat) {post : Except String Unit → Unit → History (UpgradeSig R) → Prop}
    {fail : Fail → Unit → History (UpgradeSig R) → Prop} {I : History (UpgradeSig R) → Prop} (holds : I h)
    (asked : ∀ {h : History (UpgradeSig R)} {op : UpgradeOp} {a : op.Answer R}, I h → Idle m op → I (h ++ [⟨op, a⟩]))
    (ends : ∀ got h, I h → post got () h) : Meets remember (Files nowMs) (fill pieces) post fail () h := by
  induction pieces generalizing h with
  | nil => exact meets_ask.mpr ⟨trivial, fun a => ends a _ (asked holds fun _ _ => ⟨rfl, rfl, rfl⟩)⟩
  | cons n pieces ih =>
    refine meets_bind.mpr (meets_ask.mpr ⟨trivial, fun a => ?_⟩)
    have next : I (h ++ [⟨.writeBytes n, a⟩]) := asked holds fun _ _ => ⟨rfl, rfl, rfl⟩
    cases a with
    | ok _ => exact ih next
    | error e => exact ends _ _ next

/-- The probe stands, and nothing else was made. -/
structure Probing (m : Machine R) (d : Disk) (h : History (UpgradeSig R)) : Prop where
  stands : Fair m d h → probe ∉ d.files ∧ (d.after m h).schema = d.schema ∧ (d.after m h).rows = d.rows ∧
    ∀ name, name ∈ (d.after m h).files ↔ name = probe ∨ name ∈ d.files
  asked : opened h

theorem Probing.idle (probing : Probing m d h) (idle : Idle m op) : Probing m d (h ++ [⟨op, a⟩]) where
  stands fair := by
    obtain ⟨absent, schema, rows, files⟩ := probing.stands fair.split.1
    obtain ⟨schema', rows', files'⟩ : _ ∧ _ ∧ _ := after_idle (d := d) (h := h) (a := a) idle
    rw [Disk.after_append]
    refine ⟨absent, schema'.trans schema, rows'.trans rows, fun name => ?_⟩
    show name ∈ ((d.after m h).see m ⟨op, a⟩).files ↔ _
    rw [files']
    exact files name
  asked := probing.asked.imp fun _ mem => List.mem_append_left _ mem

theorem reserve_meets (starting : Starting m d h) (bytes : Nat) :
    Meets remember (Files nowMs) (reserve bytes) (fun _ _ h => Quiet m d h) (fun _ _ h => Quiet m d h) () h := by
  refine meets_bind.mpr (meets_ask.mpr ⟨.inl ⟨rfl, starting.closed⟩, fun a => ?_⟩)
  cases a with
  | error e =>
    intro fair
    rw [Disk.after_append]
    exact starting.quiet fair.split.1
  | ok u =>
    have probing : Probing m d (h ++ [⟨.createNew probe, .ok u⟩]) := by
      refine ⟨fun fair => ?_, ⟨_, List.mem_append_right _ List.mem_cons_self⟩⟩
      obtain ⟨before, absent, _⟩ := fair.split
      obtain ⟨schema, rows, files⟩ := starting.quiet before
      rw [Disk.after_append]
      refine ⟨fun old => absent ((files probe).mpr old), schema, rows, fun name => ?_⟩
      exact Disk.mem_add.trans (or_congr Iff.rfl (files name))
    refine meets_bind.mpr (fill_meets _ probing Probing.idle fun got h probing => ?_)
    refine meets_bind.mpr (meets_ask.mpr ⟨.inl ⟨rfl, probing.asked⟩, fun b => ?_⟩)
    intro fair
    obtain ⟨absent, schema, rows, files⟩ := probing.stands fair.split.1
    rw [fair.removed]
    refine ⟨schema, rows, fun name => ?_⟩
    rw [Disk.mem_without, files]
    constructor
    · rintro ⟨same | old, other⟩
      · exact absurd same other
      · exact old
    · exact fun old => ⟨.inr old, fun same => absent (same ▸ old)⟩

theorem refuseTaken_meets (quiet : Quiet m d h) :
    Meets remember (Files nowMs) (refuseTaken dir nowMs) (fun _ _ h => Quiet m d h ∧ Making m d nowMs h)
      (fun _ _ h => Quiet m d h) () h := by
  refine meets_bind.mpr (meets_ask.mpr ⟨.inl rfl, fun a => ?_⟩)
  have first : Quiet m d (h ++ [⟨.pathExists (backupName nowMs), a⟩]) := quiet.asked fun _ _ => ⟨rfl, rfl, rfl⟩
  cases a with
  | true => exact first
  | false =>
    refine meets_bind.mpr (meets_ask.mpr ⟨.inr rfl, fun b => ?_⟩)
    have second : Quiet m d (h ++ [⟨.pathExists (backupName nowMs), false⟩] ++ [⟨.pathExists (sidecarName nowMs), b⟩]) :=
      first.asked fun _ _ => ⟨rfl, rfl, rfl⟩
    cases b with
    | true => exact second
    | false =>
      refine ⟨second, fun fair => ?_⟩
      obtain ⟨schema, rows, files⟩ := second fair
      obtain ⟨fair', noSidecar, _⟩ := fair.split
      obtain ⟨_, noBackup, _⟩ := fair'.split
      have noSidecar : sidecarName nowMs ∉ _ := of_decide_eq_false noSidecar.symm
      have noBackup : backupName nowMs ∉ _ := of_decide_eq_false noBackup.symm
      have same := first fair'
      have before := quiet fair'.split.1
      exact ⟨schema, rows, fun name mem => (files name).mpr mem, fun name mem => .inl ((files name).mp mem),
        fun mem => noBackup ((before.files _).mpr mem), fun mem => noSidecar ((same.files _).mpr mem)⟩

/-- An idle operation whose error is cleaned up after. -/
theorem askOrCleanup_meets {why : String → Fail} {x : op.Answer R → Except String α} {β : Type} {f : α → Upgrading R β}
    {post : β → Unit → History (UpgradeSig R) → Prop} (making : Making m d nowMs h) (allowed : Files nowMs h op)
    (idle : Idle m op)
    (rest : ∀ a h, Making m d nowMs h → Meets remember (Files nowMs) (f a) post (fun _ _ h => Quiet m d h) () h) :
    Meets remember (Files nowMs) (do f (← orCleanup nowMs why (x (← ask op)))) post (fun _ _ h => Quiet m d h) () h :=
  meets_bind.mpr (meets_ask.mpr ⟨allowed, fun _ => meets_bind.mpr (orCleanup_meets (making.asked idle)
    fun value => rest value _ (making.asked idle))⟩)

theorem copy_meets (making : Making m d nowMs h) :
    Meets remember (Files nowMs) (copy dir nowMs) (fun _ _ h => Making m d nowMs h) (fun _ _ h => Quiet m d h) () h := by
  refine meets_bind.mpr (meets_ask.mpr ⟨rfl, fun a => ?_⟩)
  have copied : Making m d nowMs (h ++ [⟨.backupInto (backupName nowMs), a⟩]) := by
    refine making.added (fun e => ?_) (.inl rfl)
    cases a with
    | ok _ => exact .inl rfl
    | error why =>
      cases left : why.left with
      | true => exact .inl (by simp [Disk.see, left])
      | false => exact .inr (by simp [Disk.see, left])
  cases a with
  | error why => exact cleanup_meets copied
  | ok u =>
    refine askOrCleanup_meets copied trivial (fun _ _ => ⟨rfl, rfl, rfl⟩) fun _ h making => ?_
    refine askOrCleanup_meets making trivial (fun _ _ => ⟨rfl, rfl, rfl⟩) fun _ h making => ?_
    exact meets_bind.mpr (meets_ask.mpr ⟨trivial, fun _ =>
      orCleanup_meets (making.asked fun _ _ => ⟨rfl, rfl, rfl⟩) fun _ => making.asked fun _ _ => ⟨rfl, rfl, rfl⟩⟩)

theorem prove_meets [DecidableEq R] {restored : R} {before : List String} (making : Making m d nowMs h) :
    Meets remember (Files nowMs) (prove nowMs restored before) (fun _ _ h => Making m d nowMs h)
      (fun _ _ h => Quiet m d h) () h := by
  refine askOrCleanup_meets making trivial (fun _ _ => ⟨rfl, rfl, rfl⟩) fun mode h making => ?_
  refine meets_bind.mpr (orCleanup_meets making fun _ => ?_)
  refine askOrCleanup_meets making trivial (fun _ _ => ⟨rfl, rfl, rfl⟩) fun facts h making => ?_
  refine meets_bind.mpr (orCleanup_meets making fun _ => ?_)
  refine askOrCleanup_meets making trivial (fun _ _ => ⟨rfl, rfl, rfl⟩) fun replayed h making => ?_
  refine meets_bind.mpr (orCleanup_meets making fun _ => ?_)
  refine askOrCleanup_meets making trivial (fun _ _ => ⟨rfl, rfl, rfl⟩) fun rows h making => ?_
  exact meets_bind.mpr (orCleanup_meets making fun _ => making)

theorem keepDigest_meets {records : Nat} (making : Making m d nowMs h) :
    Meets remember (Files nowMs) (keepDigest dir live digest nowMs records) (fun _ _ h => Making m d nowMs h)
      (fun _ _ h => Quiet m d h) () h := by
  refine askOrCleanup_meets making trivial (fun _ _ => ⟨rfl, rfl, rfl⟩) fun bytes h making => ?_
  refine meets_bind.mpr (meets_ask.mpr ⟨.inr rfl, fun a => ?_⟩)
  have created : Making m d nowMs (h ++ [⟨.createNew (sidecarName nowMs), a⟩]) := by
    refine making.added (fun e => ?_) (.inr rfl)
    cases a with
    | ok _ => exact .inl rfl
    | error _ => exact .inr rfl
  refine meets_bind.mpr (orCleanup_meets created fun _ => ?_)
  refine askOrCleanup_meets created trivial (fun _ _ => ⟨rfl, rfl, rfl⟩) fun _ h making => ?_
  refine askOrCleanup_meets making trivial (fun _ _ => ⟨rfl, rfl, rfl⟩) fun _ h making => ?_
  refine askOrCleanup_meets making trivial (fun _ _ => ⟨rfl, rfl, rfl⟩) fun _ h making => ?_
  exact making

/-- From the space probe on. -/
theorem stored_meets [DecidableEq R] {restored : R} (starting : Starting m d h) (bytes : Nat) :
    Meets remember (Files nowMs) (do
      orFail (fun e => fail s!"not enough free space in {dir} ({e})") (← reserve bytes)
      refuseTaken dir nowMs
      let before ← orFail fail (← ask .recordRows)
      copy dir nowMs
      let records ← prove nowMs restored before
      keepDigest dir live digest nowMs records : Upgrading R BackupReport)
      (fun _ _ h => Making m d nowMs h) (fun _ _ h => Quiet m d h) () h := by
  refine meets_bind.mpr ((reserve_meets starting bytes).imp fun got _ h quiet => ?_)
  refine meets_bind.mpr (orFail_meets (fun _ => ?_) fun _ => quiet)
  refine meets_bind.mpr ((refuseTaken_meets dir quiet).imp fun _ _ h free => ?_)
  obtain ⟨quiet, making⟩ := free
  have idle : Idle m .recordRows := fun _ _ => ⟨rfl, rfl, rfl⟩
  refine meets_bind.mpr (meets_ask.mpr ⟨trivial, fun a => meets_bind.mpr (orFail_meets (fun before => ?_) fun _ => quiet.asked idle)⟩)
  refine meets_bind.mpr ((copy_meets dir (making.asked idle)).imp fun _ _ h making => ?_)
  exact meets_bind.mpr ((prove_meets making).imp fun _ _ h making => keepDigest_meets dir live digest making)

theorem backup_meets [DecidableEq R] {restored : R} (starting : Starting m d h) :
    Meets remember (Asks nowMs) (backupBeforeSchema2 dir live digest nowMs restored) (fun _ _ h => Making m d nowMs h)
      (fun _ _ h => Quiet m d h) () h := by
  refine askOrFail_meets starting (Or.inl trivial) (fun _ _ => ⟨rfl, rfl, rfl⟩) (by simp) fun size h starting => ?_
  refine meets_bind.mpr ((privateBackupsDir_meets dir starting).imp fun _ _ h starting => ?_)
  exact (stored_meets dir live digest starting _).under fun _ _ => .inl

/-- The removal was not written. -/
def Unwritten (h : History (UpgradeSig R)) : Prop := ∀ a, (⟨.removeRegistration, a⟩ : Event (UpgradeSig R)) ∉ h

theorem remove_meets {applies : Except String Unit} {report : Option BackupReport} :
    Meets remember (Files nowMs) (remove applies report) (fun _ _ _ => True)
      (fun _ _ h => applies = .ok () → Unwritten h → Quiet m d h) () h := by
  refine meets_bind.mpr (meets_ofExcept (fun _ _ => ?_) fun e bad fine => by cases bad.symm.trans fine)
  refine meets_bind.mpr (meets_ask.mpr ⟨trivial, fun a => meets_bind.mpr ?_⟩)
  refine orFail_meets (fun _ => meets_pure.mpr trivial) fun _ _ unwritten => ?_
  exact absurd (List.mem_append_right _ List.mem_cons_self) (unwritten a)

theorem upgrade_meets [DecidableEq R] {restored : R} {applies : Except String Unit} :
    Meets remember (Asks nowMs) (upgrade dir live digest nowMs restored applies) (fun _ _ _ => True)
      (fun _ _ h => applies = .ok () → Unwritten h → Quiet m d h) () [] := by
  have starting : Starting m d [] := ⟨.start, fun ⟨_, mem⟩ => by cases mem⟩
  refine meets_bind.mpr (meets_ask.mpr ⟨.inl trivial, fun declared => ?_⟩)
  have begun : Starting m d [⟨.declaredSchema, declared⟩] := starting.asked (fun _ _ => ⟨rfl, rfl, rfl⟩) (by simp)
  refine meets_bind.mpr ?_
  unfold backupFirst
  split
  · refine meets_map.mpr ((backup_meets dir live digest begun).mono (fun report _ h _ => ?_) fun _ _ h quiet => ?_)
    · exact remove_meets.under fun _ _ => .inl
    · exact fun _ _ => quiet
  · exact remove_meets.under fun _ _ => .inl

end

/-! ## What the other files make no difference to -/

/-- The same to an attempt with this timestamp. -/
structure Disk.Like (m : Machine R) (nowMs : Nat) (d e : Disk) : Prop where
  directory : d.directory m = e.directory m
  schema : d.schema = e.schema
  rows : d.rows = e.rows
  files : ∀ name, name = probe ∨ name = backupName nowMs ∨ name = sidecarName nowMs → (name ∈ d.files ↔ name ∈ e.files)

section

variable {m : Machine R} {d e : Disk} {h : History (UpgradeSig R)} {op : UpgradeOp} {nowMs : Nat} {name : String}

theorem Disk.Like.add (like : d.Like m nowMs e) : (d.add name).Like m nowMs (e.add name) :=
  ⟨like.directory, like.schema, like.rows, fun other own => by rw [mem_add, mem_add, like.files other own]⟩

theorem Disk.Like.without (like : d.Like m nowMs e) : (d.without name).Like m nowMs (e.without name) :=
  ⟨like.directory, like.schema, like.rows, fun other own => by rw [mem_without, mem_without, like.files other own]⟩

/-- What is asked of the files is answered alike, and leaves the disks alike. -/
theorem like_step (allowed : Files nowMs h op) (like : d.Like m nowMs e) : m.answer d op = m.answer e op ∧
    (d.see m ⟨op, m.answer d op⟩).Like m nowMs (e.see m ⟨op, m.answer e op⟩) := by
  cases op with
  | createNew name =>
    have same := like.files name (allowed.imp And.left .inr)
    by_cases mem : name ∈ d.files
    · have left : m.answer d (.createNew name) = Except.error _ := if_pos mem
      have right : m.answer e (.createNew name) = Except.error _ := if_pos (same.mp mem)
      rw [left, right]
      exact ⟨rfl, like⟩
    · have left : m.answer d (.createNew name) = Except.ok () := if_neg mem
      have right : m.answer e (.createNew name) = Except.ok () := if_neg fun old => mem (same.mpr old)
      rw [left, right]
      exact ⟨rfl, like.add⟩
  | removeFile name =>
    have same := like.files name (allowed.imp And.left id)
    by_cases mem : name ∈ d.files
    · have left : m.answer d (.removeFile name) = Removal.removed := if_pos mem
      have right : m.answer e (.removeFile name) = Removal.removed := if_pos (same.mp mem)
      rw [left, right]
      exact ⟨rfl, like.without⟩
    · have left : m.answer d (.removeFile name) = Removal.absent := if_neg mem
      have right : m.answer e (.removeFile name) = Removal.absent := if_neg fun old => mem (same.mpr old)
      rw [left, right]
      exact ⟨rfl, like⟩
  | pathExists name => exact ⟨decide_eq_decide.mpr (like.files name (.inr allowed)), like⟩
  | backupInto name =>
    have same := like.files name (.inr (.inl allowed))
    by_cases mem : name ∈ d.files
    · have left : m.answer d (.backupInto name) = Except.error ⟨_, false⟩ := if_pos mem
      have right : m.answer e (.backupInto name) = Except.error ⟨_, false⟩ := if_pos (same.mp mem)
      rw [left, right]
      exact ⟨rfl, like⟩
    · have left : m.answer d (.backupInto name) = Except.ok () := if_neg mem
      have right : m.answer e (.backupInto name) = Except.ok () := if_neg fun old => mem (same.mpr old)
      rw [left, right]
      exact ⟨rfl, like.add⟩
  | inspectBackups | createBackups | statBackups => exact allowed.elim
  | removeRegistration =>
    refine ⟨rfl, like.directory, rfl, ?_, like.files⟩
    show d.rows ++ [m.removal] = e.rows ++ [m.removal]
    rw [like.rows]
  | declaredSchema => exact ⟨like.schema, like⟩
  | recordRows => exact ⟨congrArg _ like.rows, like⟩
  | inspectFile _ =>
    refine ⟨?_, like⟩
    show Except.ok (ε := String) (⟨"ok", d.schema, d.rows⟩ : JournalFileFacts) = .ok ⟨"ok", e.schema, e.rows⟩
    rw [like.schema, like.rows]
  | replayFile _ => exact ⟨congrArg m.replay like.rows, like⟩
  | readFile _ => exact ⟨congrArg (fun rows => Except.ok (m.contents rows)) like.rows, like⟩
  | journalSize | statJournalDir | writeBytes _ | syncFile _ | setPermissions _ | syncDir | statFile _ | writeText _ _ =>
    exact ⟨rfl, like⟩

theorem ask_alike (allowed : Files (R := R) nowMs [] op) :
    Alike m.answer (Disk.see m) (Disk.Like m nowMs) (ask op : Upgrading R (op.Answer R)) := by
  have meets : Meets remember (Files nowMs) (ask op : Upgrading R (op.Answer R)) (fun _ _ _ => True) (fun _ _ _ => True) () [] :=
    meets_ask.mpr ⟨allowed, fun _ => trivial⟩
  exact Meets.alike meets fun _ _ _ _ => like_step

theorem orFail_alike {α : Type} {why : String → Fail} {x : Except String α} :
    Alike m.answer (Disk.see m) (Disk.Like m nowMs) (orFail why x : Upgrading R α) := by
  cases x <;> exact fun _ _ like => ⟨rfl, like⟩

/-- The directory, whether it was made now or earlier. -/
def checkDirectory (m : Machine R) (dir : String) : Entry → Except Fail Unit
  | .symlink => .error (fail s!"{dir} is a symbolic link")
  | .notDir => .error (fail s!"{dir} is not a directory")
  | .absent => .ok ()
  | .dir mode uid => if isPrivate mode uid m.owner then .ok () else .error (fail (mustBePrivate dir))

theorem privateBackupsDir_on (dir : String) : (privateBackupsDir dir : Upgrading R Unit).on m.answer (Disk.see m) d =
    (checkDirectory m dir (d.directory m), { d with backups := d.directory m }) := by
  obtain ⟨backups, files, schema, rows⟩ := d
  have checked : ∀ mode uid, (orFail fail (if isPrivate mode uid m.owner then .ok () else .error (mustBePrivate dir)) :
      Upgrading R Unit).on m.answer (Disk.see m) ⟨.dir mode uid, files, schema, rows⟩ =
      (checkDirectory m dir (.dir mode uid), ⟨.dir mode uid, files, schema, rows⟩) := by
    intro mode uid
    unfold orFail
    rw [on_ofExcept]
    show _ = (if isPrivate mode uid m.owner then Except.ok () else Except.error (fail (mustBePrivate dir)), (_ : Disk))
    cases isPrivate mode uid m.owner <;> rfl
  cases backups with
  | symlink | notDir => rfl
  | absent => exact checked m.made.1 m.made.2
  | dir mode uid => exact checked mode uid

theorem privateBackupsDir_alike (dir : String) :
    Alike m.answer (Disk.see m) (Disk.Like m nowMs) (privateBackupsDir dir : Upgrading R Unit) := by
  intro d e like
  rw [privateBackupsDir_on, privateBackupsDir_on, like.directory]
  have still : ∀ d : Disk, Disk.directory m { d with backups := d.directory m } = d.directory m := by
    intro d
    obtain ⟨backups, files, schema, rows⟩ := d
    cases backups <;> rfl
  refine ⟨rfl, ?_, like.schema, like.rows, like.files⟩
  have first := still d
  rw [like.directory] at first
  exact first.trans (still e).symm

variable (dir live : String) (digest : List Nat → String)

/-- An attempt comes to the same on disks that are the same to it. -/
theorem upgrade_alike [DecidableEq R] {restored : R} {applies : Except String Unit} :
    Alike m.answer (Disk.see m) (Disk.Like m nowMs) (upgrade dir live digest nowMs restored applies) := by
  have finish : ∀ report, Alike m.answer (Disk.see m) (Disk.Like m nowMs)
      (remove applies report : Upgrading R (Option BackupReport)) := fun report =>
    Meets.alike (remove_meets (m := m) (d := ⟨.absent, [], 0, []⟩) (h := [])) fun _ _ _ _ => like_step
  have declared : Files (R := R) nowMs [] .declaredSchema := trivial
  have size : Files (R := R) nowMs [] .journalSize := trivial
  refine (ask_alike declared).bind fun _ => ?_
  refine Alike.bind ?_ finish
  unfold backupFirst
  split
  · rw [← bind_pure_comp]
    refine Alike.bind ?_ fun report s t like => ⟨rfl, like⟩
    refine (ask_alike size).bind fun _ => orFail_alike.bind fun _ => ?_
    refine (privateBackupsDir_alike dir).bind fun _ => ?_
    have starting : Starting m ⟨.absent, [], 0, []⟩ [] := ⟨.start, fun ⟨_, mem⟩ => by cases mem⟩
    exact Meets.alike (stored_meets dir live digest starting _) fun _ _ _ _ => like_step
  · exact fun s t like => ⟨rfl, like⟩

end

/-! ## Runs -/

/-- One attempt: the disk it found, its timestamp, the state the journal replays to, whether the replay rules
accept the removal, and what it asked, wherever it was cut short. -/
structure Try (R : Type) where
  before : Disk
  nowMs : Nat
  restored : R
  applies : Except String Unit
  asked : History (UpgradeSig R)

section

variable [DecidableEq R] (m : Machine R) (dir live : String) (digest : List Nat → String)

/-- The attempt asked this much, and has `q` left to do. -/
def Try.Ran (t : Try R) (q : Program (UpgradeSig R) (Except Fail (Option BackupReport) × Unit)) : Prop :=
  Program.Follows ((upgrade dir live digest t.nowMs t.restored t.applies).toProgram ()) t.asked q

/-- What the attempt left on the disk. -/
def Try.left (t : Try R) : Disk := t.before.after m t.asked

/-- It removed its probe if it made one, and could remove what it tried to remove. -/
structure Try.Tidy (t : Try R) : Prop where
  probe : ⟨.createNew probe, Except.ok ()⟩ ∈ t.asked → ⟨.removeFile probe, Removal.removed⟩ ∈ t.asked
  removals : ∀ name why, ⟨.removeFile name, Removal.failed why⟩ ∉ t.asked

/-- Attempts, each cut short anywhere or not at all; in between, other records are written. -/
inductive Tried (d₀ : Disk) : Disk → List (Try R) → Prop where
  | start : Tried d₀ d₀ []
  | attempt {t : Try R} {tries : List (Try R)} {q : Program (UpgradeSig R) (Except Fail (Option BackupReport) × Unit)}
      (earlier : Tried d₀ t.before tries) (ran : t.Ran dir live digest q) (honest : Honestly m t.before t.asked) :
      Tried d₀ (t.left m) (tries ++ [t])
  | others {d : Disk} {tries : List (Try R)} (earlier : Tried d₀ d tries) (rows : List String) :
      Tried d₀ { d with rows := rows } tries

/-- What the next attempt, with this timestamp, comes to on a machine on which nothing fails. -/
def comesTo (d : Disk) (nowMs : Nat) (restored : R) (applies : Except String Unit) : Except Fail (Option BackupReport) :=
  ((upgrade dir live digest nowMs restored applies).on m.answer (Disk.see m) d).1

end

section

variable [DecidableEq R] {m : Machine R} {dir live : String} {digest : List Nat → String} {d d₀ : Disk} {t : Try R}
  {tries : List (Try R)} {nowMs : Nat} {q : Program (UpgradeSig R) (Except Fail (Option BackupReport) × Unit)}
  {h k : History (UpgradeSig R)} {ev : Event (UpgradeSig R)} {name : String}

/-- What an attempt asked, it was allowed to ask there. -/
theorem Try.Ran.allowed (ran : t.Ran dir live digest q) (split : t.asked = h ++ ev :: k) : Asks t.nowMs h ev.op := by
  unfold Try.Ran at ran
  rw [split] at ran
  let m : Machine R := ⟨(0, 0), 0, 0, fun _ => [], fun _ => .error "", ""⟩
  have meets : Meets remember (Asks t.nowMs) (upgrade dir live digest t.nowMs t.restored t.applies) (fun _ _ _ => True)
      (fun _ _ h => t.applies = .ok () → Unwritten h → Quiet m t.before h) () [] := upgrade_meets dir live digest
  have allowed := Lawful.at (Program.Obeys.follows meets ran).2
  rwa [seen_remember] at allowed

/-- What an attempt leaves is its probe, or carries its timestamp. -/
theorem Try.Ran.left_files (ran : t.Ran dir live digest q) (mem : name ∈ (t.left m).files) :
    name ∈ t.before.files ∨ name = probe ∨ name = backupName t.nowMs ∨ name = sidecarName t.nowMs := by
  rcases Disk.mem_after mem with old | ⟨ev, within, made⟩
  · exact .inl old
  · obtain ⟨h, k, split⟩ := List.append_of_mem within
    have allowed := ran.allowed split
    rcases made with rfl | made
    · rcases allowed with allowed | no | no | no
      · exact .inr (allowed.imp And.left .inr)
      · cases no
      · cases no
      · cases no
    · rw [made] at allowed
      rcases allowed with allowed | no | no | no
      · exact .inr (.inr (.inl allowed))
      · cases no
      · cases no
      · cases no

/-- The probe is created once, before it is removed. -/
theorem Try.Ran.probe_gone (ran : t.Ran dir live digest q) (tidy : t.Tidy) (clean : probe ∉ t.before.files) :
    probe ∉ (t.left m).files := by
  intro stands
  rcases Disk.mem_after stands with old | ⟨ev, within, made⟩
  · exact clean old
  · have notBackup : ∀ {h k ev}, t.asked = h ++ ev :: k → ev.op ≠ .backupInto probe := by
      intro h k ev split same
      have allowed := ran.allowed split
      rw [same] at allowed
      rcases allowed with allowed | no | no | no
      · exact backupName_ne_probe allowed.symm
      · cases no
      · cases no
      · cases no
    have once : ∀ {h k a}, t.asked = h ++ ⟨.createNew probe, a⟩ :: k → ¬ opened h := by
      intro h k a split
      rcases ran.allowed split with allowed | no | no | no
      · exact allowed.elim And.right fun same => absurd same.symm sidecarName_ne_probe
      · cases no
      · cases no
      · cases no
    have created : ⟨.createNew probe, Except.ok ()⟩ ∈ t.asked := by
      rcases made with rfl | made
      · exact within
      · obtain ⟨h, k, split⟩ := List.append_of_mem within
        exact absurd made (notBackup split)
    obtain ⟨h, k, split⟩ := List.append_of_mem (tidy.probe created)
    -- The removal was asked for with the probe there, and the probe was not created again.
    have asked : opened h := by
      rcases ran.allowed split with allowed | no | no | no
      · rcases allowed with ⟨_, asked⟩ | same | same
        · exact asked
        · exact absurd same.symm backupName_ne_probe
        · exact absurd same.symm sidecarName_ne_probe
      · cases no
      · cases no
      · cases no
    rw [Try.left, split] at stands
    have stands : probe ∈ (((t.before.after m h).without probe).after m k).files := by
      rw [Disk.after_append] at stands
      exact stands
    rcases Disk.mem_after stands with old | ⟨ev, within, made⟩
    · exact (Disk.mem_without.mp old).2 rfl
    · obtain ⟨h', k', rest⟩ := List.append_of_mem within
      have split : t.asked = (h ++ ⟨.removeFile probe, Removal.removed⟩ :: h') ++ ev :: k' := by
        rw [split, rest, List.append_assoc]
        rfl
      rcases made with rfl | made
      · exact once split (asked.imp fun _ mem => List.mem_append_left _ mem)
      · exact notBackup split made

theorem Tried.honest (tried : Tried m dir live digest d₀ d tries) : ∀ t ∈ tries, Honestly m t.before t.asked := by
  induction tried with
  | start => exact fun _ made => by cases made
  | others _ _ ih => exact ih
  | attempt _ _ honest ih =>
    intro t made
    rcases List.mem_append.mp made with earlier | last
    · exact ih t earlier
    · cases List.mem_singleton.mp last
      exact honest

/-- What tidy attempts leave. -/
structure LeftBy (m : Machine R) (d₀ : Disk) (tries : List (Try R)) (d : Disk) : Prop where
  directory : d.directory m = d₀.directory m
  probe : probe ∉ d.files
  files : ∀ name ∈ d.files, name ∈ d₀.files ∨ ∃ t ∈ tries, name = backupName t.nowMs ∨ name = sidecarName t.nowMs

/-- Run lemma. -/
theorem Tried.leftBy (tried : Tried m dir live digest d₀ d tries) (tidy : ∀ t ∈ tries, t.Tidy) (clean : probe ∉ d₀.files) :
    LeftBy m d₀ tries d := by
  induction tried with
  | start => exact ⟨rfl, clean, fun _ => .inl⟩
  | others _ _ ih =>
    obtain ⟨directory, probe, files⟩ := ih tidy
    exact ⟨directory, probe, files⟩
  | @attempt t tries q _ ran _ ih =>
    obtain ⟨directory, noProbe, files⟩ := ih fun t mem => tidy t (List.mem_append_left _ mem)
    have own := tidy t (List.mem_append_right _ List.mem_cons_self)
    refine ⟨Disk.directory_after.trans directory, ran.probe_gone own noProbe, fun name mem => ?_⟩
    rcases ran.left_files mem with old | rfl | made
    · refine (files name old).imp id fun ⟨t, mem, made⟩ => ⟨t, List.mem_append_left _ mem, made⟩
    · exact absurd mem (ran.probe_gone own noProbe)
    · exact .inr ⟨t, List.mem_append_right _ List.mem_cons_self, made⟩

/-- A failed attempt with a fair file system. -/
theorem Try.Ran.unchanged {f : Fail} (ran : t.Ran dir live digest (.done (.error f, ()))) (honest : Honestly m t.before t.asked)
    (tidy : t.Tidy) (applies : t.applies = .ok ()) (unwritten : Unwritten t.asked) : t.before.Same (t.left m) := by
  have meets : Meets remember (Asks t.nowMs) (upgrade dir live digest t.nowMs t.restored t.applies) (fun _ _ _ => True)
      (fun _ _ h => t.applies = .ok () → Unwritten h → Quiet m t.before h) () [] := upgrade_meets dir live digest
  have ended := Program.Obeys.ended meets ran
  rw [seen_remember] at ended
  exact ended applies unwritten ⟨honest, tidy.removals⟩

/-- When no attempt was stopped while its probe stood, the next one, with a timestamp of its own, comes to what it
would come to with nothing left behind; and an attempt that failed before the removal was written left the files
and the journal as they were. -/
theorem upgrade_retried (tried : Tried m dir live digest d₀ d tries) (tidy : ∀ t ∈ tries, t.Tidy)
    (unused : nowMs ∉ tries.map Try.nowMs)
    (clean : ∀ name, name = probe ∨ name = backupName nowMs ∨ name = sidecarName nowMs → name ∉ d₀.files) :
    (∀ restored applies, comesTo m dir live digest d nowMs restored applies =
        comesTo m dir live digest { d with backups := d₀.backups, files := d₀.files } nowMs restored applies) ∧
      ∀ t ∈ tries, ∀ f, t.Ran dir live digest (.done (.error f, ())) → t.applies = .ok () → Unwritten t.asked →
        t.before.Same (t.left m) := by
  have left := tried.leftBy tidy (clean probe (.inl rfl))
  constructor
  · intro restored applies
    have absent : ∀ name, name = probe ∨ name = backupName nowMs ∨ name = sidecarName nowMs → name ∉ d.files := by
      intro name own mem
      rcases own with rfl | own
      · exact left.probe mem
      · rcases left.files name mem with old | ⟨t, made, other⟩
        · exact clean name (.inr own) old
        · have same : t.nowMs = nowMs := by
            rcases own with rfl | rfl <;> rcases other with other | other
            · exact (backupName_inj other).symm
            · exact absurd other backupName_ne_sidecarName
            · exact absurd other.symm backupName_ne_sidecarName
            · exact (sidecarName_inj other).symm
          exact unused (List.mem_map.mpr ⟨t, made, same⟩)
    have like : d.Like m nowMs { d with backups := d₀.backups, files := d₀.files } :=
      ⟨left.directory, rfl, rfl, fun name own => iff_of_false (absent name own) (clean name own)⟩
    exact (upgrade_alike dir live digest _ _ like).1
  · exact fun t made f ran applies unwritten => ran.unchanged (tried.honest t made) (tidy t made) applies unwritten

end

/-! ### An attempt that is killed -/

namespace Killed

def machine : Machine (List String) := ⟨(0o700, 501), 501, 0, fun _ => [], .ok, "gitdrop"⟩

/-- The journal before the first attempt. -/
def disk : Disk := ⟨.dir 0o700 501, [], 1, ["gitrepo"]⟩

def answers : (op : UpgradeOp) → op.Answer (List String)
  | .removeFile _ => .removed
  | op => machine.answer disk op

/-- What an attempt asks until it made its copy. -/
def steps : List UpgradeOp :=
  [.declaredSchema, .journalSize, .inspectBackups, .statBackups, .statJournalDir, .createNew probe, .writeBytes 1048576,
    .syncFile probe, .removeFile probe, .pathExists (backupName 1), .pathExists (sidecarName 1), .recordRows,
    .backupInto (backupName 1)]

/-- An attempt that is killed after so many steps. -/
def attempt (n : Nat) : Try (List String) :=
  ⟨disk, 1, disk.rows, .ok (), (steps.take n).map fun op => ⟨op, answers op⟩⟩

def digest : List Nat → String := fun _ => "0"

def program : Program (UpgradeSig (List String)) (Except Fail (Option BackupReport) × Unit) :=
  (upgrade "backups" "deployments.sqlite3" digest 1 disk.rows (.ok ())).toProgram ()

theorem asked_steps : ((program.play (S := UpgradeSig (List String)) answers).1.map Event.op).take 13 = steps := by
  decide

theorem ran {n : Nat} (short : n ≤ 13) : ∃ q, (attempt n).Ran "backups" "deployments.sqlite3" digest q := by
  obtain ⟨q, follows⟩ := (Program.play_follows (S := UpgradeSig (List String)) answers program).take n
  have asked : (program.play (S := UpgradeSig (List String)) answers).1.take n = (attempt n).asked := by
    rw [Program.play_history, ← List.map_take]
    show _ = (steps.take n).map _
    rw [← asked_steps, List.take_take, Nat.min_eq_left short]
  rw [asked] at follows
  exact ⟨q, follows⟩

theorem honest_probing : Honestly machine disk (attempt 6).asked :=
  ⟨trivial, trivial, trivial, trivial, trivial, (by decide : probe ∉ disk.files), trivial⟩

theorem honest_copied : Honestly machine disk (attempt 13).asked :=
  ⟨trivial, trivial, trivial, trivial, trivial, (by decide : probe ∉ disk.files), trivial, trivial, trivial,
    (by decide : false = decide (backupName 1 ∈ ((disk.add probe).without probe).files)),
    (by decide : false = decide (sidecarName 1 ∈ ((disk.add probe).without probe).files)), trivial, trivial, trivial⟩

theorem tried {n : Nat} (short : n ≤ 13) (honest : Honestly machine disk (attempt n).asked) :
    Tried machine "backups" "deployments.sqlite3" digest disk ((attempt n).left machine) [attempt n] := by
  obtain ⟨q, ran⟩ := ran short
  have first : Tried machine "backups" "deployments.sqlite3" digest disk (attempt n).before [] := .start
  exact first.attempt ran honest

theorem tidy_copied : (attempt 13).Tidy where
  probe _ := List.mem_map.mpr ⟨.removeFile probe, by decide, rfl⟩
  removals name why mem := by
    obtain ⟨op, _, same⟩ := List.mem_map.mp mem
    cases op <;> cases same

theorem clean (name : String) (_ : name = probe ∨ name = backupName 2 ∨ name = sidecarName 2) : name ∉ disk.files :=
  List.not_mem_nil

/-- The next attempt finds the probe, and takes it for a full disk. -/
theorem refused : (comesTo machine "backups" "deployments.sqlite3" digest ((attempt 6).left machine) 2 disk.rows
    (.ok ())).toOption.isSome = false := by decide

theorem accepted : (comesTo machine "backups" "deployments.sqlite3" digest disk 2 disk.rows (.ok ())).toOption.isSome = true := by
  decide

end Killed

/-- After an attempt that was killed once it had made its copy. -/
theorem upgrade_retried_copied : (∀ restored applies,
      comesTo Killed.machine "backups" "deployments.sqlite3" Killed.digest ((Killed.attempt 13).left Killed.machine) 2 restored applies =
        comesTo Killed.machine "backups" "deployments.sqlite3" Killed.digest
          { (Killed.attempt 13).left Killed.machine with backups := Killed.disk.backups, files := Killed.disk.files } 2 restored applies) ∧
      ∀ t ∈ [Killed.attempt 13], ∀ f, t.Ran "backups" "deployments.sqlite3" Killed.digest (.done (.error f, ())) →
        t.applies = .ok () → Unwritten t.asked → t.before.Same (t.left Killed.machine) :=
  upgrade_retried (Killed.tried (Nat.le_refl 13) Killed.honest_copied)
    (fun _ made => List.mem_singleton.mp made ▸ Killed.tidy_copied) (by decide) Killed.clean

/-- An attempt that is killed while its space probe stands makes every later one fail. -/
theorem probe_refuses_upgrade : ∃ d tries, Tried Killed.machine "backups" "deployments.sqlite3" Killed.digest Killed.disk d tries ∧
    2 ∉ tries.map Try.nowMs ∧ (∀ name, name = probe ∨ name = backupName 2 ∨ name = sidecarName 2 → name ∉ Killed.disk.files) ∧
    comesTo Killed.machine "backups" "deployments.sqlite3" Killed.digest d 2 Killed.disk.rows (.ok ()) ≠
      comesTo Killed.machine "backups" "deployments.sqlite3" Killed.digest
        { d with backups := Killed.disk.backups, files := Killed.disk.files } 2 Killed.disk.rows (.ok ()) := by
  refine ⟨_, _, Killed.tried (by decide : 6 ≤ 13) Killed.honest_probing, by decide, Killed.clean, fun same => ?_⟩
  have came := congrArg (fun got => got.toOption.isSome) same
  rw [Killed.refused] at came
  exact absurd (came.trans Killed.accepted) (by decide)

end Harpoon.Cli.JournalUpgrade
