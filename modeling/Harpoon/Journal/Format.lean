import Harpoon.Journal.Control
import Harpoon.Journal.Snapshot
import Harpoon.Wire.Lines

/-!
# The journal file

The first line is a header; every other line is one record. A line that does not end in a newline was
never completed and is discarded; a line that does and cannot be read is damage, and reading stops there
(`journal_format.rs`).

The records of configurations, of repositories and of step logs are not looked into here: how their
bodies are read is a parameter.
-/

namespace Harpoon.Journal

open Deploy Wire

/-! ## Lines -/

def fileVersion : Nat := 1

def magic : String := "harpoon-journal"

inductive Line (β : Type) where
  | header (version : Nat)
  | snapshot (d : Deployment)
  | ledger (r : LedgerRecord)
  | control (r : Control.ControlRecord)
  /-- A configuration, a repository or a step log. -/
  | other (r : β)

/-- The kinds of the records that are not looked into. -/
def otherKinds : List String := ["deplog", "gitrepo", "gitseen", "gitsrc", "gitdrop", "cfgdef", "cfgsec", "cfgsnap"]

def encodeHeader : String := frame (joined '\t' ["header", magic, fileVersion.repr])

section

variable {β : Type} (others : List String → Except String β)

def decodeHeader (f : List String) : Except String Nat :=
  if f.length ≠ 3 ∨ f[1]? ≠ some magic then .error "not a Harpoon journal header"
  else need "bad file version" (parseUnsigned 10 0xFFFFFFFF (f[2]?.getD ""))

/-- One line, without its newline. The checksum is looked at before anything else. -/
def decodeLine (line : String) : Except String (Line β) := do
  let (crc, body) ← unframe line
  let f := fields '\t' body
  let kind := f.headD ""
  if kind = "header" then do
    checked crc body
    .header <$> decodeHeader f
  else if kind = "snap" then do
    checked crc body
    .snapshot <$> decodeSnapshot f
  else if kind ∈ ["pause", "event", "resume", "exec"] then do
    checked crc body
    .control <$> Control.decode f
  else if kind ∈ otherKinds then do
    checked crc body
    .other <$> others f
  else .ledger <$> decodeLedger line

/-! ## Whole files -/

inductive FormatError where
  /-- A line that ends in a newline is damaged. -/
  | corrupt (line : Nat) (why : String)
  | badHeader (why : String)
  | unsupportedVersion (version : Nat)
  /-- The records contradict each other. -/
  | inconsistent (why : String)
  deriving DecidableEq

inductive Tail where
  | clean
  /-- A torn write of this many bytes is to be discarded. -/
  | partialDiscarded (bytes : Nat)
  deriving DecidableEq

structure Recovered (β : Type) where
  /-- Every record after the header, in order. -/
  lines : List (Line β)
  /-- The bytes of the file that are whole lines. -/
  validLen : Nat
  tail : Tail
  hasHeader : Bool

/-- The records read so far, and whether the header was. -/
structure Progress (β : Type) where
  lines : List (Line β)
  hasHeader : Bool

/-- Line number `n` of the file, after the lines before it. -/
def recoverLine (n : Nat) (p : Progress β) (bytes : Bytes) : Except FormatError (Progress β) := do
  let text ← match fromUtf8 bytes with
    | some text => .ok text
    | none => .error (.corrupt n "not utf-8")
  let line ← (decodeLine others text).mapError fun e => if n = 1 then .badHeader e else .corrupt n e
  match line with
  | .header version =>
    if n ≠ 1 then .error (.corrupt n "a second header")
    else if version ≠ fileVersion then .error (.unsupportedVersion version)
    else .ok { p with hasHeader := true }
  | line =>
    if n = 1 then .error (.badHeader "the first line is not a header")
    else .ok { p with lines := p.lines ++ [line] }

/-- The lines from number `n` on. -/
def recoverLines : Nat → Progress β → List Bytes → Except FormatError (Progress β)
  | _, p, [] => .ok p
  | n, p, l :: ls => do
    let p ← recoverLine others n p l
    recoverLines (n + 1) p ls

/-- What stands after the last newline is a torn write. -/
def tailOf (rest : Bytes) : Tail := if rest = [] then .clean else .partialDiscarded rest.length

/-- The byte of a newline. -/
abbrev newline : UInt8 := 10

/-- Read a journal file. -/
def recover (bytes : Bytes) : Except FormatError (Recovered β) := do
  let p ← recoverLines others 1 ⟨[], false⟩ (cutLines newline bytes).1
  return ⟨p.lines, bytes.length - (cutLines newline bytes).2.length, tailOf (cutLines newline bytes).2, p.hasHeader⟩

end

/-! ## The ledger's own files -/

namespace Codec

/-- A line that ends in a newline and does not decode. -/
inductive RecoverError where
  | corrupt (line : Nat) (why : String)
  deriving DecidableEq

structure Recovered where
  records : List LedgerRecord
  validLen : Nat
  tail : Tail
  deriving DecidableEq

/-- The records of the lines from number `n` on. -/
def recoverLines : Nat → List Bytes → Except RecoverError (List LedgerRecord)
  | _, [] => .ok []
  | n, l :: ls => do
    let text ← match fromUtf8 l with
      | some text => .ok text
      | none => .error (.corrupt n "not utf-8")
    let r ← (decodeLedger text).mapError (.corrupt n)
    let rs ← recoverLines (n + 1) ls
    return r :: rs

/-- Read a file of ledger records (`codec::recover`). -/
def recover (bytes : Bytes) : Except RecoverError Recovered := do
  let records ← recoverLines 1 (cutLines newline bytes).1
  return ⟨records, bytes.length - (cutLines newline bytes).2.length, tailOf (cutLines newline bytes).2⟩

end Codec

end Harpoon.Journal
