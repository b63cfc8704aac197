import Harpoon.Journal.Format
import Harpoon.Laws.ControlCodec
import Harpoon.Laws.SnapshotCodec

/-!
# Journal lines

A line that was written for a record is read as that record, whatever the other kinds of record are.
-/

namespace Harpoon.Journal

open Deploy Wire

section

variable {β : Type} {others : List String → Except String β} {fs : List String} {d : Deployment}
  {r : LedgerRecord} {c : Control.ControlRecord}

theorem plain_header : ∀ f ∈ ["header", magic, fileVersion.repr], Plain f := by decide

theorem decodeLine_header : decodeLine others encodeHeader = .ok (.header fileVersion) := by
  have version : decodeHeader ["header", magic, fileVersion.repr] = .ok fileVersion := by
    have one : parseUnsigned 10 0xFFFFFFFF fileVersion.repr = some fileVersion := parseUnsigned_repr (by decide)
    have fits : ¬ (["header", magic, fileVersion.repr].length ≠ 3 ∨
        ["header", magic, fileVersion.repr][1]? ≠ some magic) := by decide
    rw [decodeHeader, if_neg fits]
    show need "bad file version" (parseUnsigned 10 0xFFFFFFFF fileVersion.repr) = _
    rw [one]
    rfl
  rw [decodeLine, encodeHeader, unframe_frame]
  simp only [bind, Except.bind, checked_frame, fields_plain plain_header (List.cons_ne_nil _ _)]
  rw [if_pos (by rfl), version]
  rfl

theorem decodeLine_encodeSnapshot :
    decodeLine others (encodeSnapshot d) = .snapshot <$> decodeSnapshot (snapshotFields d) := by
  have list := fields_plain (plain_snapshotFields (d := d)) (List.cons_ne_nil _ _)
  have kind : (snapshotFields d).headD "" = "snap" := rfl
  rw [decodeLine, encodeSnapshot, unframe_frame]
  simp only [bind, Except.bind, checked_frame, list, kind]
  rfl

theorem decodeLine_snapshot (ok : Recordable d) : decodeLine others (encodeSnapshot d) = .ok (.snapshot d) := by
  rw [decodeLine_encodeSnapshot, decodeSnapshot_snapshotFields ok]
  rfl

theorem decodeLine_ledger (fits : ledgerMs r ≤ maxNumber) : decodeLine others (encodeLedger r) = .ok (.ledger r) := by
  have some : ledgerFields r ≠ [] := by cases r <;> simp [ledgerFields]
  have list := fields_plain (plain_ledgerFields (r := r)) some
  have line := decodeLedger_encodeLedger fits
  rw [encodeLedger] at line ⊢
  rw [decodeLine, unframe_frame]
  simp only [bind, Except.bind, list, line]
  cases r <;> rfl

theorem decodeLine_control (back : Control.ReadsBack c) :
    decodeLine others (Control.encode c) = .ok (.control c) := by
  have some : Control.recordFields c ≠ [] := by
    cases c <;> exact List.cons_ne_nil _ _
  have list := fields_plain (Control.plain_recordFields back) some
  rw [decodeLine, Control.encode, unframe_frame]
  simp only [bind, Except.bind, checked_frame, list, Control.decode_recordFields back]
  cases c <;> rfl

end

end Harpoon.Journal
