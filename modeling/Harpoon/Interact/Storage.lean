import Harpoon.Interact.Process

/-!
# A file that is written at its end

What code may ask of such a file, how each operation can fail, and what the file then holds. A write that
fails may have written a part of its bytes, and what was not synced may be lost in a crash, whole or in
part; so a disk is what a read returns now, together with what a read may return instead once the machine
went down.
-/

namespace Harpoon.Interact

inductive WalOp where
  /-- Write all bytes at the end of the file. -/
  | append (bytes : List UInt8)
  /-- Make what was done so far durable. -/
  | sync
  | truncate (len : Nat)
  /-- Make the file's directory entry durable. -/
  | syncDir
  deriving DecidableEq

/-- How an operation ended. -/
inductive WalAnswer where
  | ok
  /-- It failed, having done so much: of an append, the first bytes; of a truncation, all if anything. -/
  | failed (why : String) (done : Nat)
  deriving DecidableEq

abbrev WalSig : Signature := ⟨WalOp, fun _ => WalAnswer⟩

structure Disk where
  /-- What a read returns. -/
  cached : List UInt8
  /-- What a read may return instead after a crash. -/
  crashed : List (List UInt8)
  deriving DecidableEq

namespace Disk

/-- What may be found when the file is opened the next time. -/
def contents (d : Disk) : List (List UInt8) := d.cached :: d.crashed

/-- A file of which everything is durable. -/
def durable (bytes : List UInt8) : Disk := ⟨bytes, []⟩

/-- The bytes reached the end of the file. In a crash, any part of them may be missing. -/
def append (d : Disk) (bytes : List UInt8) : Disk where
  cached := d.cached ++ bytes
  crashed := d.crashed ++ (List.range (bytes.length + 1)).map fun n => d.cached ++ bytes.take n

/-- The file was cut. In a crash, what was cut may come back. -/
def truncate (d : Disk) (len : Nat) : Disk := ⟨d.cached.take len, d.crashed ++ [d.cached]⟩

def see (d : Disk) : Event WalSig → Disk
  | ⟨.append bytes, .ok⟩ => d.append bytes
  | ⟨.append bytes, .failed _ done⟩ => d.append (bytes.take done)
  | ⟨.sync, .ok⟩ => durable d.cached
  | ⟨.sync, .failed _ _⟩ => d
  | ⟨.truncate len, .ok⟩ => d.truncate len
  | ⟨.truncate len, .failed _ done⟩ => if done = 0 then d else d.truncate len
  | ⟨.syncDir, _⟩ => d

variable {d : Disk} {bytes found : List UInt8} {len : Nat}

@[simp] theorem contents_durable : (durable bytes).contents = [bytes] := rfl

@[simp] theorem cached_mem : d.cached ∈ d.contents := List.mem_cons_self

/-- After an append, the file holds what it held, or that and a part of the bytes. -/
theorem mem_append (mem : found ∈ (d.append bytes).contents) :
    found ∈ d.contents ∨ ∃ n, found = d.cached ++ bytes.take n := by
  rcases List.mem_cons.mp mem with rfl | mem
  · exact .inr ⟨bytes.length, by rw [List.take_length]; rfl⟩
  · rcases List.mem_append.mp mem with old | new
    · exact .inl (List.mem_cons_of_mem _ old)
    · obtain ⟨n, _, rfl⟩ := List.mem_map.mp new
      exact .inr ⟨n, rfl⟩

/-- After a truncation, the file holds what it held, or what is left. -/
theorem mem_truncate (mem : found ∈ (d.truncate len).contents) : found ∈ d.contents ∨ found = d.cached.take len := by
  rcases List.mem_cons.mp mem with rfl | mem
  · exact .inr rfl
  · refine .inl ?_
    rcases List.mem_append.mp mem with old | new
    · exact List.mem_cons_of_mem _ old
    · exact List.mem_singleton.mp new ▸ cached_mem

end Disk

end Harpoon.Interact
