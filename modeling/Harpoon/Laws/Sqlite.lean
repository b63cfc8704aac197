import Harpoon.Journal.Sqlite
import Harpoon.Laws.TornTail

/-!
# Texts in the database

The line of a record holds no line break, whatever its texts are. It holds a zero character exactly when one
of them does, and then the database never gets it; every other line is stored, and read back, byte for byte.
-/

namespace Harpoon.Journal

open Deploy Wire

/-- The character that ends a C string. -/
abbrev nul : Char := '\x00'

/-- The free texts of a record: failure messages, step notes, names of resources, runtime ids and details of
cleanups. -/
def Record.texts : Record → List String
  | .snapshot d => snapshotTexts d
  | .ledger r => ledgerTexts r

variable {s t : String} {fs : List String} {c : ReleaseConfig} {r : Record} {rows : List Row} {row : Row}

/-! ## Zero characters -/

theorem nul_esc : Free nul (esc s) ↔ Free nul s := by
  unfold Free
  rw [esc, String.toList_ofList, not_congr]
  constructor
  · intro mem
    obtain ⟨c, inside, mem⟩ := List.mem_flatMap.mp mem
    rcases escChar_cases c with ⟨d, code, back, _⟩ | ⟨code, _⟩
    · rw [code] at mem
      simp only [List.mem_cons, List.not_mem_nil, or_false] at mem
      rcases mem with zero | rfl
      · cases zero
      · cases back
    · rw [code, List.mem_singleton] at mem
      exact mem ▸ inside
  · intro inside
    exact List.mem_flatMap.mpr ⟨nul, inside, List.mem_singleton.mpr rfl⟩

theorem nul_encode : Free nul c.encode := (ReleaseConfig.outer nul (by decide)).encode (by decide)

/-- The line of fields holds a zero character exactly when a field does. -/
theorem nul_frame : Free nul (frame (joined '\t' fs)) ↔ ∀ f ∈ fs, Free nul f := by
  constructor
  · intro free f inside mem
    refine free ?_
    rw [frame, String.toList_append, String.toList_append]
    exact List.mem_append_right _ (List.mem_append_right _ (joined_mem inside mem))
  · intro free mem
    rw [frame, String.toList_append, String.toList_append] at mem
    rcases List.mem_append.mp mem with mem | mem
    · exact hexPadded_free (by decide) mem
    · rcases List.mem_append.mp mem with mem | mem
      · exact absurd mem (by decide)
      · rcases mem_joined mem with same | ⟨f, inside, mem⟩
        · exact absurd same (by decide)
        · exact free f inside mem

/-- The texts of a record, escaped, are fields of its line; no other field has a zero character. -/
theorem nul_record : Free nul r.encode ↔ ∀ t ∈ r.texts, Free nul t := by
  have asStr : ∀ {kind : IdKind} (i : Id kind), Free nul i.asStr := fun _ => Id.asStr_free (by decide)
  have number : ∀ n : Nat, Free nul n.repr := fun _ => repr_free (by decide)
  cases r with
  | snapshot d =>
    rw [Record.encode, encodeSnapshot, nul_frame]
    constructor
    · intro free t mem
      exact nul_esc.mp (free _ (esc_snapshotFields mem))
    · intro free
      exact forall_snapshotFields (by decide) asStr number (fun t mem => nul_esc.mpr (free t mem))
        fun _ => nul_encode
  | ledger l =>
    rw [Record.encode, encodeLedger, nul_frame]
    constructor
    · intro free t mem
      exact nul_esc.mp (free _ (esc_ledgerFields mem))
    · intro free
      exact forall_ledgerFields (by decide) asStr number fun t mem => nul_esc.mpr (free t mem)

/-! ## Rows -/

theorem nul_utf8 : (0 : UInt8) ∈ utf8 s ↔ nul ∈ s.toList := ascii_utf8 rfl (by decide)

theorem cstring_free (free : Free nul s) : cstring s = .ok (utf8 s ++ [0]) :=
  if_neg fun mem => free (nul_utf8.mp mem)

theorem cstrBytes_append {bs cs : Bytes} (free : 0 ∉ bs) : cstrBytes (bs ++ cs) = bs ++ cstrBytes cs :=
  List.takeWhile_append_of_pos fun _ mem => decide_eq_true fun zero => free (zero ▸ mem)

theorem cstrBytes_end {bs : Bytes} (free : 0 ∉ bs) : cstrBytes (bs ++ [0]) = bs := by
  rw [cstrBytes_append free]
  exact List.append_nil bs

theorem cstrBytes_free {bs : Bytes} (free : 0 ∉ bs) : cstrBytes bs = bs := by
  have all : cstrBytes (bs ++ []) = bs ++ [] := cstrBytes_append free
  rwa [List.append_nil] at all

/-- A text without a zero character is bound, and the database takes its bytes. -/
theorem bindText_free (free : Free nul s) : bindText s (.ok ()) = .ok (utf8 s) := by
  have bytes : (0 : UInt8) ∉ utf8 s := fun mem => free (nul_utf8.mp mem)
  rw [bindText, cstring_free free]
  exact congrArg Except.ok (cstrBytes_end bytes)

theorem bindText_ok {answer : Except String Unit} {bs : Bytes} (bound : bindText s answer = .ok bs) : Free nul s := by
  obtain ⟨_, made, _⟩ := bind_ok bound
  intro mem
  rw [cstring, if_pos (nul_utf8.mpr mem)] at made
  cases made

theorem kind_free : Free nul r.kind := by
  cases r with
  | snapshot d => exact (by decide : Free nul "snapshot")
  | ledger l => exact (by decide : Free nul "ledger")

/-- A record whose line holds no zero character becomes a row of the database, and the row says the line. -/
theorem insert_free (free : Free nul r.encode) :
    r.insert .works rows = (.ok (), rows ++ [⟨utf8 r.kind, utf8 r.encode⟩]) := by
  have row : insertRow .works r.kind r.encode = .ok ⟨utf8 r.kind, utf8 r.encode⟩ := by
    rw [insertRow, Database.works, bindText_free kind_free, bindText_free free]
    rfl
  rw [Record.insert, insert, transaction, row]
  rfl

/-- No database gets a text with a zero character: the transaction is rolled back. -/
theorem insert_nul {db : Database} (mem : ¬ Free nul r.encode) : ∃ e, r.insert db rows = (.error (.io e), rows) := by
  cases done : transaction db r.kind r.encode with
  | error e => exact ⟨e, by rw [Record.insert, insert, done]⟩
  | ok row =>
    obtain ⟨_, _, rest⟩ := bind_ok done
    obtain ⟨_, inserted, _⟩ := bind_ok rest
    obtain ⟨_, _, rest⟩ := bind_ok inserted
    obtain ⟨_, _, rest⟩ := bind_ok rest
    obtain ⟨_, bound, _⟩ := bind_ok rest
    exact absurd (bindText_ok bound) mem

theorem bodyText_utf8 {kind : Bytes} (free : Free nul s) : bodyText ⟨kind, utf8 s⟩ = .ok s := by
  have bytes : cstrBytes (utf8 s) = utf8 s := cstrBytes_free fun mem => free (nul_utf8.mp mem)
  rw [bodyText, bytes, fromUtf8_utf8]

/-! ## Records -/

/-- A record that a database which works stores: its line is one line, the database takes it as a C string, and
the row that it adds reads back as the line. -/
structure Record.Stored (r : Record) : Prop where
  newline : Free '\n' r.encode
  nul : Free nul r.encode
  row : ∀ rows, ∃ row, r.insert .works rows = (.ok (), rows ++ [row]) ∧ row.body = utf8 r.encode ∧
    bodyText row = .ok r.encode

/-- Whatever its texts are, the line of a record is one line. A record is stored exactly when no text of it holds
a zero character: every other character may be in a failure message, in a note, in the name of a resource, in a
runtime id and in the detail of a cleanup. -/
theorem stored_iff (r : Record) : r.Stored ↔ ∀ t ∈ r.texts, Free nul t := by
  constructor
  · intro stored
    exact nul_record.mp stored.nul
  · intro texts
    have free : Free nul r.encode := nul_record.mpr texts
    exact ⟨encode_newline r, free, fun rows => ⟨_, insert_free free, rfl, bodyText_utf8 free⟩⟩

/-- The new release of a deployment does not start, and the message why holds a zero character. The deployment is
saved so before the previous release is restored. -/
def unstorable : Deployment :=
  { Kept.first with
    status := .running
    startedMs := some 5
    steps := (StepTable.fresh.set .cutover ⟨.failed, some 6, some 7, "\x00"⟩).set .recovery
      ⟨.running, some 7, none, ""⟩
    cutover := .failed 7
    interruption := some ⟨6, none⟩
    failure := some ⟨.cutover, .cutover, "\x00", false⟩
    recovery := some ⟨.inProgress, 7, none, 60000⟩ }

/-- No database stores it, although the file journal does. -/
theorem unstorable_refused : ¬ ∀ r : Record, r.Stored := by
  intro every
  have held : ("\x00" : String) ∈ (Record.snapshot unstorable).texts := by
    simp [Record.texts, snapshotTexts, unstorable]
  exact nul_record.mp (every (.snapshot unstorable)).nul _ held (by decide)

end Harpoon.Journal
