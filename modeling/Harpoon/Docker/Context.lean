import Harpoon.Git.Url
import Harpoon.Docker.Dockerfile

/-!
# The build context

Which files of a source tree `.dockerignore` leaves out, as far as Harpoon interprets it (`ignore.rs`), and the
private copy of the tree that a build reads (`snapshot.rs`).
-/

namespace Harpoon.Docker.Context

open Dockerfile (trimChars)
open Git (containsText)

/-! ## Ignore rules -/

structure IgnoreRules where
  /-- The patterns, each cut into its segments. -/
  patterns : List (List String) := []
  /-- Why a line excludes nothing. -/
  notes : List String := []
  /-- Has a `!` line turned the rules off? -/
  disabled : Bool := false
  deriving DecidableEq, Repr

namespace IgnoreRules

/-- The segments of a pattern. -/
def segments (line : String) : List String := (Wire.fields '/' line).filter (· ≠ "")

/-- Is the meaning of the pattern certain? -/
def understood (segs : List String) : Bool :=
  !segs.isEmpty && segs.all fun s =>
    s ≠ "." && s ≠ ".." && !s.toList.any (fun c => c = '?' || c = '[' || c = '\\' || c = '{') &&
      (s = "**" || !containsText "**" s)

def reincludes (line : String) : String :=
  s!"{Deploy.Envvars.debugStr line} re-includes files; the whole context is counted"

def uninterpreted (line : String) : String :=
  s!"pattern {Deploy.Envvars.debugStr line} is not interpreted for sizing; it excludes nothing here"

def parseLine (r : IgnoreRules) (raw : String) : IgnoreRules :=
  match trimChars raw.toList with
  | [] => r
  | '#' :: _ => r
  | '!' :: cs =>
    { r with disabled := true, notes := r.notes ++ [reincludes (String.ofList ('!' :: cs))] }
  | cs =>
    let line := String.ofList cs
    if understood (segments line) then { r with patterns := r.patterns ++ [segments line] }
    else { r with notes := r.notes ++ [uninterpreted line] }

def parse (text : String) : IgnoreRules :=
  let r := (Wire.fields '\n' text).foldl parseLine {}
  if r.disabled then { r with patterns := [] } else r

/-- `*` matches any run of bytes within one segment; everything else is literal. -/
def glob : Wire.Bytes → Wire.Bytes → Bool
  | [], s => s.isEmpty
  | p :: ps, s =>
    if p = 0x2A then (List.range (s.length + 1)).any fun n => glob ps (s.drop n)
    else s.head? = some p && glob ps s.tail

/-- `**` matches zero or more whole segments. -/
def segMatch : List String → List String → Bool
  | [], path => path.isEmpty
  | p :: rest, path =>
    if p = "**" then (List.range (path.length + 1)).any fun n => segMatch rest (path.drop n)
    else
      match path with
      | [] => false
      | s :: tail => glob (Wire.utf8 p) (Wire.utf8 s) && segMatch rest tail

/-- Does the path match, itself or through a folder above it? -/
def excludes (r : IgnoreRules) (rel : List String) : Bool :=
  r.patterns.any fun p => (List.range rel.length).any fun k => segMatch p (rel.take (k + 1))

end IgnoreRules

/-- The paths that are sent whatever the ignore file says: the Dockerfile and the ignore files. -/
def alwaysSent (dockerfile : List String) : List (List String) :=
  [dockerfile, dockerfile.dropLast ++ [dockerfile.getLastD "" ++ ".dockerignore"], [".dockerignore"]]

/-! ## The copy -/

/-- What a name of a directory stands for. Names are texts. -/
inductive Node where
  | file (size : Nat)
  | link
  /-- A socket, a FIFO or a device. -/
  | other
  | dir (entries : List (String × Node))

def Node.isDir : Node → Bool
  | .dir _ => true
  | _ => false

inductive SnapshotError where
  | changed (path : List String)
  | tooLarge (limit : Nat)
  | badNonce
  | io (path : List String) (why : String)
  deriving DecidableEq, Repr

structure Snapshot where
  /-- The files and links that are copied. -/
  copied : List (List String) := []
  files : Nat := 0
  bytes : Nat := 0
  skipped : List String := []
  deriving DecidableEq, Repr

/-- What the copy does with a path, each of which can fail. -/
inductive CopyStep where
  | readDir
  | lstat
  | copy
  deriving DecidableEq, Repr

section

variable (rules : IgnoreRules) (keep : List (List String)) (limit : Nat)
  (fails : CopyStep → List String → Option SnapshotError)

/-- Is the entry left out? A folder that holds a path that is always sent is not. -/
def leavesOut (r : List String) (node : Node) : Bool :=
  rules.excludes r && !keep.contains r && !(node.isDir && keep.any fun k => r.isPrefixOf k)

def copyNode (snap : Snapshot) (r : List String) : Node → Except SnapshotError Snapshot
  | .dir _ => .ok snap
  | .link => .ok { snap with copied := snap.copied ++ [r] }
  | .file size =>
    if limit - snap.bytes < size then .error (.tooLarge limit)
    else .ok { snap with copied := snap.copied ++ [r], files := snap.files + 1, bytes := snap.bytes + size }
  | .other => .ok { snap with skipped := snap.skipped ++ ["/".intercalate r] }

/-- Copy one entry of the directory `rel`; of a directory, only the directory itself. -/
def copyEntry (rel : List String) (snap : Snapshot) (entry : String × Node) : Except SnapshotError Snapshot :=
  let r := rel ++ [entry.1]
  match fails .lstat r with
  | some e => .error e
  | none =>
    if leavesOut rules keep r entry.2 then .ok snap
    else
      match fails .copy r with
      | some e => .error e
      | none => copyNode limit snap r entry.2

/-- The directories of a directory that are to be read, the last one first. -/
def pushed (rel : List String) : List (String × Node) → List (List String × List (String × Node))
  | [] => []
  | (name, .dir entries) :: rest =>
    if leavesOut rules keep (rel ++ [name]) (.dir entries) then pushed rel rest
    else pushed rel rest ++ [(rel ++ [name], entries)]
  | _ :: rest => pushed rel rest

/-- The size of the directories that are still to be read. -/
noncomputable def weight : List (List String × List (String × Node)) → Nat
  | [] => 0
  | s :: stack => sizeOf s.2 + weight stack

theorem weight_append (a b : List (List String × List (String × Node))) : weight (a ++ b) = weight a + weight b := by
  induction a with
  | nil => simp [weight]
  | cons s a ih => simp [weight, ih]; omega

theorem weight_pushed (rel : List String) (entries : List (String × Node)) :
    weight (pushed rules keep rel entries) < sizeOf entries := by
  induction entries with
  | nil => simp [pushed, weight]
  | cons e rest ih =>
    obtain ⟨name, node⟩ := e
    cases node with
    | dir entries =>
      have size : sizeOf ((name, Node.dir entries) :: rest) = 1 + (1 + sizeOf name + (1 + sizeOf entries)) + sizeOf rest := by
        simp
      rw [pushed]
      split
      · omega
      · rw [weight_append]
        simp only [weight] at ih ⊢
        omega
    | file size => simp [pushed]; omega
    | link => simp [pushed]; omega
    | other => simp [pushed]; omega

/-- Copy what a directory has; the directories in it are copied empty. -/
def copyDir (rel : List String) (entries : List (String × Node)) (snap : Snapshot) : Except SnapshotError Snapshot :=
  match fails .readDir rel with
  | some e => .error e
  | none => entries.foldlM (copyEntry rules keep limit fails rel) snap

/-- Copy the directories of the stack. -/
def copyTree (stack : List (List String × List (String × Node))) (snap : Snapshot) : Except SnapshotError Snapshot :=
  match stack with
  | [] => .ok snap
  | (rel, entries) :: stack =>
    match copyDir rules keep limit fails rel entries snap with
    | .error e => .error e
    | .ok snap => copyTree (pushed rules keep rel entries ++ stack) snap
termination_by weight stack
decreasing_by
  rw [weight_append]
  have less := weight_pushed rules keep rel entries
  simp only [weight] at less ⊢
  omega

end

def nonceOk (nonce : String) : Bool :=
  !nonce.isEmpty && nonce.toList.all fun c => (Wire.digitValue c).isSome

/-- A copy of the tree for one build, whose Dockerfile is at that path. -/
def createSnapshot (context : List (String × Node)) (dockerfile : List String) (rules : IgnoreRules) (limit : Nat)
    (fails : CopyStep → List String → Option SnapshotError) (nonce : String) : Except SnapshotError Snapshot :=
  if nonceOk nonce then copyTree rules (alwaysSent dockerfile) limit fails [([], context)] {} else .error .badNonce

end Harpoon.Docker.Context
