import Harpoon.Journal.File
import Harpoon.Laws.Format

/-!
# Torn files

A file of records that was cut anywhere is read as the records whose whole lines are left, and as a torn
tail. Cut back to these lines and written on, it is read as the old records and the new ones.
-/

namespace Harpoon.Journal

open Deploy Wire

/-! ## Files of records -/

/-- The record is read back from its own line. -/
def Record.Readable {β : Type} (others : List String → Except String β) (r : Record) : Prop :=
  decodeLine others r.encode = .ok r.line

def headerBytes : Bytes := lineBytes encodeHeader

/-- The lines of the records. -/
def recordBytes (rs : List Record) : Bytes := rs.flatMap fun r => lineBytes r.encode

/-- The file that appending the records makes. -/
def fileBytes (rs : List Record) : Bytes := headerBytes ++ recordBytes rs

/-- The lines of the file, without their newlines. -/
def fileLines (rs : List Record) : List Bytes := utf8 encodeHeader :: rs.map fun r => utf8 r.encode

section

variable {β : Type} {others : List String → Except String β} {rs more : List Record} {r : Record} {d : Deployment}
  {l : LedgerRecord} {tail : Bytes} {n k : Nat} {p : Progress β}

theorem readable_snapshot (ok : Recordable d) : (Record.snapshot d).Readable others := decodeLine_snapshot ok

theorem readable_ledger (fits : ledgerMs l ≤ maxNumber) : (Record.ledger l).Readable others := decodeLine_ledger fits

@[simp] theorem recordBytes_append : recordBytes (rs ++ more) = recordBytes rs ++ recordBytes more :=
  List.flatMap_append

theorem fileBytes_append : fileBytes (rs ++ more) = fileBytes rs ++ recordBytes more := by
  rw [fileBytes, fileBytes, recordBytes_append, List.append_assoc]

theorem recordBytes_eq : recordBytes rs = ofLines newline (rs.map fun r => utf8 r.encode) := by
  rw [recordBytes, ofLines, List.flatMap_map]
  rfl

theorem fileBytes_eq : fileBytes rs = ofLines newline (fileLines rs) := by
  rw [fileLines, ofLines_cons, ← recordBytes_eq, fileBytes, headerBytes, lineBytes, List.append_assoc]
  rfl

theorem encode_newline (r : Record) : Free '\n' r.encode := by
  cases r with
  | snapshot d => exact frame_newline plain_snapshotFields
  | ledger r => exact frame_newline plain_ledgerFields

theorem header_newline : Free '\n' encodeHeader := by
  unfold encodeHeader
  exact frame_newline plain_header

theorem fileLines_free : ∀ l ∈ fileLines rs, newline ∉ l := by
  intro l mem
  rcases List.mem_cons.mp mem with same | mem
  · rw [same]
    exact newline_utf8 header_newline
  · obtain ⟨r, _, rfl⟩ := List.mem_map.mp mem
    exact newline_utf8 (encode_newline r)

theorem fileBytes_nil : fileBytes [] = headerBytes := List.append_nil _

theorem fileLines_take : (fileLines rs).take (k + 1) = fileLines (rs.take k) := by
  rw [fileLines, fileLines, List.take_succ_cons, List.map_take]

/-! ## Reading them -/

/-- Whole lines are read, and what follows them is the tail. -/
theorem recover_lines {ls : List Bytes} (lines : ∀ l ∈ ls, newline ∉ l) (free : newline ∉ tail) :
    recover others (ofLines newline ls ++ tail) =
      (recoverLines others 1 ⟨[], false⟩ ls).map fun p =>
        ⟨p.lines, (ofLines newline ls).length, tailOf tail, p.hasHeader⟩ := by
  have cut : cutLines newline (ofLines newline ls ++ tail) = (ls, tail) := by
    rw [cutLines_ofLines lines, cutLines_tail free, List.append_nil]
  rw [recover, cut]
  dsimp only
  rw [List.length_append, Nat.add_sub_cancel]
  cases recoverLines others 1 ⟨[], false⟩ ls <;> rfl

theorem recoverLine_record (readable : r.Readable others) (later : n ≠ 1) :
    recoverLine others n p (utf8 r.encode) = .ok { p with lines := p.lines ++ [r.line] } := by
  rw [recoverLine, fromUtf8_utf8]
  simp only [bind, Except.bind]
  rw [show decodeLine others r.encode = .ok r.line from readable]
  cases r <;>
    · simp only [mapError_ok, Record.line]
      exact if_neg later

theorem recoverLines_records (readable : ∀ r ∈ rs, r.Readable others) (later : 2 ≤ n) :
    recoverLines others n p (rs.map fun r => utf8 r.encode) = .ok { p with lines := p.lines ++ rs.map Record.line } := by
  induction rs generalizing n p with
  | nil => rw [List.map_nil, List.map_nil, List.append_nil]; rfl
  | cons r rs ih =>
    have one : n ≠ 1 := by omega
    rw [List.map_cons, recoverLines, recoverLine_record (readable r List.mem_cons_self) one]
    simp only [bind, Except.bind]
    rw [ih (fun r mem => readable r (List.mem_cons_of_mem _ mem)) (Nat.le_succ_of_le later), List.append_assoc]
    rfl

theorem recoverLine_header : recoverLine others 1 ⟨[], false⟩ (utf8 encodeHeader) = .ok ⟨[], true⟩ := by
  rw [recoverLine, fromUtf8_utf8]
  simp only [bind, Except.bind, decodeLine_header, mapError_ok]
  rfl

theorem recoverLines_file (readable : ∀ r ∈ rs, r.Readable others) :
    recoverLines others 1 ⟨[], false⟩ (fileLines rs) = .ok ⟨rs.map Record.line, true⟩ := by
  rw [fileLines, recoverLines, recoverLine_header]
  exact recoverLines_records readable (Nat.le_refl 2)

/-- A file of records with a torn tail. -/
theorem recover_file (readable : ∀ r ∈ rs, r.Readable others) (free : newline ∉ tail) :
    recover others (fileBytes rs ++ tail) = .ok ⟨rs.map Record.line, (fileBytes rs).length, tailOf tail, true⟩ := by
  rw [fileBytes_eq, recover_lines fileLines_free free, recoverLines_file readable]
  rfl

/-- A whole line that is not read is damage. -/
theorem recover_unreadable {e : String} (bad : decodeLine others r.encode = .error e) :
    recover others (fileBytes [r]) = .error (.corrupt 2 e) := by
  have line : recoverLine others 2 ⟨[], true⟩ (utf8 r.encode) = .error (.corrupt 2 e) := by
    rw [recoverLine, fromUtf8_utf8]
    simp only [bind, Except.bind, bad, mapError_error]
    rfl
  rw [← List.append_nil (fileBytes [r]), fileBytes_eq, recover_lines fileLines_free (fun mem => by cases mem),
    fileLines, recoverLines, recoverLine_header]
  simp only [bind, Except.bind, List.map_cons, recoverLines, line]
  rfl

/-- A file that holds no whole line. -/
theorem recover_tail (free : newline ∉ tail) : recover others tail = .ok ⟨[], 0, tailOf tail, false⟩ :=
  recover_lines (fun _ (mem : _ ∈ ([] : List Bytes)) => by cases mem) free

/-- A file that ends in a newline, or is empty, is its whole lines. -/
theorem ofLines_of_ended {bytes : Bytes} (ended : bytes = [] ∨ bytes.getLast? = some newline) :
    ∃ ls, bytes = ofLines newline ls ∧ ∀ l ∈ ls, newline ∉ l := by
  have whole := ofLines_cutLines newline bytes
  obtain ⟨lines, free⟩ := cutLines_free newline bytes
  refine ⟨_, ?_, lines⟩
  cases rest : (cutLines newline bytes).2 with
  | nil => rw [rest, List.append_nil] at whole; exact whole.symm
  | cons b bs =>
    rw [rest] at whole free
    rcases ended with empty | last
    · cases (List.append_eq_nil_iff.mp (whole.trans empty)).2
    · rw [← whole, List.getLast?_append, List.getLast?_cons, Option.some_or] at last
      exact absurd (List.mem_of_getLast? (List.getLast?_cons.trans last)) free

/-- Whatever a file holds, an incomplete last line is only its tail. -/
theorem recover_incomplete {bytes : Bytes} (ended : bytes = [] ∨ bytes.getLast? = some newline)
    (free : newline ∉ tail) :
    recover others (bytes ++ tail) = (recover others bytes).map fun found => { found with tail := tailOf tail } := by
  obtain ⟨ls, rfl, lines⟩ := ofLines_of_ended ended
  have alone : recover others _ = _ := recover_lines lines List.not_mem_nil
  rw [List.append_nil] at alone
  rw [recover_lines lines free, alone]
  cases recoverLines others 1 ⟨[], false⟩ ls <;> rfl

/-! ## Cut files -/

/-- The file that opening leaves of `bytes`: its whole lines, and a header if it had none. -/
def reopened (found : Recovered β) (bytes : Bytes) : Bytes :=
  bytes.take found.validLen ++ if found.hasHeader then [] else headerBytes

/-- What is read of the first `n` bytes of a file of records. -/
structure ReadsPrefix (others : List String → Except String β) (rs : List Record) (n k : Nat)
    (found : Recovered β) : Prop where
  read : recover others ((fileBytes rs).take n) = .ok found
  count : k ≤ rs.length
  /-- A record is read exactly when its line, with its newline, is there. -/
  whole : ∀ i < rs.length, i < k ↔ (fileBytes (rs.take (i + 1))).length ≤ n
  lines : found.lines = (rs.take k).map Record.line
  header : found.hasHeader = decide (headerBytes.length ≤ n)
  validLen : found.validLen = if found.hasHeader then (fileBytes (rs.take k)).length else 0
  tail : found.tail = tailOf (((fileBytes rs).take n).drop found.validLen)
  /-- The file that is left when it is opened is one of these records. -/
  left : reopened found ((fileBytes rs).take n) = fileBytes (rs.take k)

theorem reads_prefix (readable : ∀ r ∈ rs, r.Readable others) (n : Nat) :
    ∃ k found, ReadsPrefix others rs n k found := by
  obtain ⟨k, tail, t⟩ := torn (fileLines_free : ∀ l ∈ fileLines rs, newline ∉ l) n
  have split := t.split
  rw [← fileBytes_eq] at split
  have whole : ∀ i < rs.length, i + 1 < k ↔ (fileBytes (rs.take (i + 1))).length ≤ n := by
    intro i inside
    have below : i + 1 < (fileLines rs).length := by simp [fileLines, inside]
    rw [t.whole_iff below, fileLines_take, ← fileBytes_eq]
  have header : 0 < k ↔ headerBytes.length ≤ n := by
    have below : 0 < (fileLines rs).length := by simp [fileLines]
    rw [t.whole_iff below, fileLines_take, ← fileBytes_eq, List.take_zero, fileBytes_nil]
  cases k with
  | zero =>
    have all : (fileBytes rs).take n = tail := split
    refine ⟨0, ⟨[], 0, tailOf tail, false⟩, ?_, Nat.zero_le _, fun i inside => ?_, rfl, ?_, rfl, ?_, ?_⟩
    · rw [all]
      exact recover_tail t.free
    · have none := whole i inside
      omega
    · simpa using header
    · rw [all]; rfl
    · rw [List.take_zero, fileBytes_nil, reopened, List.take_zero]
      exact List.nil_append _
  | succ k =>
    rw [fileLines_take, ← fileBytes_eq] at split
    have few : k ≤ rs.length := by
      have count := t.count
      simp only [fileLines, List.length_cons, List.length_map] at count
      omega
    refine ⟨k, ⟨(rs.take k).map Record.line, (fileBytes (rs.take k)).length, tailOf tail, true⟩, ?_, few,
      fun i inside => ?_, rfl, ?_, ?_, ?_, ?_⟩
    · rw [split]
      exact recover_file (fun r mem => readable r (List.mem_of_mem_take mem)) t.free
    · have here := whole i inside
      omega
    · simpa using header
    · simp only [if_true]
    · rw [split, List.drop_left]
    · rw [reopened, split, List.take_left]
      exact List.append_nil _

end

/-! ## Files of ledger records -/

/-- The lines of ledger records. -/
def ledgerBytes (ls : List LedgerRecord) : Bytes := ls.flatMap fun r => lineBytes (encodeLedger r)

section

variable {ls more : List LedgerRecord} {tail : Bytes} {n : Nat}

theorem ledgerBytes_append : ledgerBytes (ls ++ more) = ledgerBytes ls ++ ledgerBytes more := List.flatMap_append

theorem ledgerBytes_eq : ledgerBytes ls = ofLines newline (ls.map fun r => utf8 (encodeLedger r)) := by
  rw [ledgerBytes, ofLines, List.flatMap_map]
  rfl

theorem ledgerLines_free : ∀ l ∈ ls.map (fun r => utf8 (encodeLedger r)), newline ∉ l := by
  intro l mem
  obtain ⟨r, _, rfl⟩ := List.mem_map.mp mem
  exact newline_utf8 (frame_newline plain_ledgerFields)

theorem ledger_recover_lines {lines : List Bytes} (whole : ∀ l ∈ lines, newline ∉ l) (free : newline ∉ tail) :
    Codec.recover (ofLines newline lines ++ tail) =
      (Codec.recoverLines 1 lines).map fun records => ⟨records, (ofLines newline lines).length, tailOf tail⟩ := by
  have cut : cutLines newline (ofLines newline lines ++ tail) = (lines, tail) := by
    rw [cutLines_ofLines whole, cutLines_tail free, List.append_nil]
  rw [Codec.recover, cut]
  dsimp only
  rw [List.length_append, Nat.add_sub_cancel]
  cases Codec.recoverLines 1 lines <;> rfl

theorem ledger_recoverLines (fits : ∀ r ∈ ls, ledgerMs r ≤ maxNumber) :
    Codec.recoverLines n (ls.map fun r => utf8 (encodeLedger r)) = .ok ls := by
  induction ls generalizing n with
  | nil => rfl
  | cons r ls ih =>
    rw [List.map_cons, Codec.recoverLines, fromUtf8_utf8]
    simp only [bind, Except.bind, decodeLedger_encodeLedger (fits r List.mem_cons_self), mapError_ok]
    rw [ih fun r mem => fits r (List.mem_cons_of_mem _ mem)]
    rfl

theorem ledger_recover (fits : ∀ r ∈ ls, ledgerMs r ≤ maxNumber) (free : newline ∉ tail) :
    Codec.recover (ledgerBytes ls ++ tail) = .ok ⟨ls, (ledgerBytes ls).length, tailOf tail⟩ := by
  rw [ledgerBytes_eq, ledger_recover_lines ledgerLines_free free, ledger_recoverLines fits]
  rfl

theorem ledger_incomplete {bytes : Bytes} (ended : bytes = [] ∨ bytes.getLast? = some newline) (free : newline ∉ tail) :
    Codec.recover (bytes ++ tail) = (Codec.recover bytes).map fun found => { found with tail := tailOf tail } := by
  obtain ⟨lines, rfl, whole⟩ := ofLines_of_ended ended
  have alone := ledger_recover_lines whole List.not_mem_nil
  rw [List.append_nil] at alone
  rw [ledger_recover_lines whole free, alone]
  cases Codec.recoverLines 1 lines <;> rfl

/-- What is read of the first `n` bytes of a file of ledger records. -/
structure LedgerPrefix (ls : List LedgerRecord) (n k : Nat) (found : Codec.Recovered) : Prop where
  read : Codec.recover ((ledgerBytes ls).take n) = .ok found
  count : k ≤ ls.length
  whole : ∀ i < ls.length, i < k ↔ (ledgerBytes (ls.take (i + 1))).length ≤ n
  records : found.records = ls.take k
  validLen : found.validLen = (ledgerBytes (ls.take k)).length
  tail : found.tail = tailOf (((ledgerBytes ls).take n).drop found.validLen)
  left : ((ledgerBytes ls).take n).take found.validLen = ledgerBytes (ls.take k)

theorem ledger_prefix (fits : ∀ r ∈ ls, ledgerMs r ≤ maxNumber) (n : Nat) : ∃ k found, LedgerPrefix ls n k found := by
  obtain ⟨k, tail, t⟩ := torn (ledgerLines_free : ∀ l ∈ ls.map (fun r => utf8 (encodeLedger r)), newline ∉ l) n
  have split := t.split
  rw [← List.map_take, ← ledgerBytes_eq, ← ledgerBytes_eq] at split
  refine ⟨k, ⟨ls.take k, (ledgerBytes (ls.take k)).length, tailOf tail⟩, ?_, ?_, fun i inside => ?_, rfl, rfl, ?_, ?_⟩
  · rw [split]
    exact ledger_recover (fun r mem => fits r (List.mem_of_mem_take mem)) t.free
  · simpa using t.count
  · rw [t.whole_iff (by simpa using inside), ← List.map_take, ← ledgerBytes_eq]
  · rw [split, List.drop_left]
  · rw [split, List.take_left]

end

/-! ## Both files -/

/-- What is read of files that were cut after `n` bytes, and of what is written on after them. -/
structure TornTails {β : Type} (others : List String → Except String β) (rs more : List Record)
    (ls after : List LedgerRecord) (n : Nat) : Prop where
  journal : ∃ k found, ReadsPrefix others rs n k found ∧
    recover others (reopened found ((fileBytes rs).take n) ++ recordBytes more) =
      .ok ⟨(rs.take k ++ more).map Record.line, (fileBytes (rs.take k ++ more)).length, .clean, true⟩
  ledger : ∃ k found, LedgerPrefix ls n k found ∧
    Codec.recover (((ledgerBytes ls).take n).take found.validLen ++ ledgerBytes after) =
      .ok ⟨ls.take k ++ after, (ledgerBytes (ls.take k ++ after)).length, .clean⟩
  /-- In any file, damaged or not, an incomplete last line is only its tail. -/
  incomplete : ∀ bytes tail : Bytes, bytes = [] ∨ bytes.getLast? = some newline → newline ∉ tail →
    recover others (bytes ++ tail) = (recover others bytes).map (fun found => { found with tail := tailOf tail }) ∧
    Codec.recover (bytes ++ tail) = (Codec.recover bytes).map fun found => { found with tail := tailOf tail }

/-- However a file of readable records was cut, exactly the records whose lines are whole are read, and what
is written after them is read after them. -/
theorem torn_tails_recover {β : Type} {others : List String → Except String β} {rs more : List Record}
    {ls after : List LedgerRecord} (readable : ∀ r ∈ rs ++ more, r.Readable others)
    (fits : ∀ r ∈ ls ++ after, ledgerMs r ≤ maxNumber) (n : Nat) : TornTails others rs more ls after n where
  journal := by
    obtain ⟨k, found, reads⟩ := reads_prefix (fun r mem => readable r (List.mem_append_left _ mem)) n
    refine ⟨k, found, reads, ?_⟩
    rw [reads.left, ← fileBytes_append, ← List.append_nil (fileBytes (rs.take k ++ more))]
    rw [recover_file (fun r mem => ?_) (fun mem => by cases mem), List.append_nil]
    · rfl
    · rcases List.mem_append.mp mem with old | new
      · exact readable r (List.mem_append_left _ (List.mem_of_mem_take old))
      · exact readable r (List.mem_append_right _ new)
  ledger := by
    obtain ⟨k, found, reads⟩ := ledger_prefix (fun r mem => fits r (List.mem_append_left _ mem)) n
    refine ⟨k, found, reads, ?_⟩
    rw [reads.left, ← ledgerBytes_append, ← List.append_nil (ledgerBytes (ls.take k ++ after))]
    rw [ledger_recover (fun r mem => ?_) (fun mem => by cases mem), List.append_nil]
    · rfl
    · rcases List.mem_append.mp mem with old | new
      · exact fits r (List.mem_append_left _ (List.mem_of_mem_take old))
      · exact fits r (List.mem_append_right _ new)
  incomplete _ _ ended free := ⟨recover_incomplete ended free, ledger_incomplete ended free⟩

/-! ### A small journal -/

namespace Kept

/-- No other kind of record is known. -/
def others : List String → Except String Unit := fun _ => .error "unknown record"

def first : Deployment := Deployment.new ⟨2#128⟩ ⟨1#128⟩ .manual 5

def attempt : LedgerRecord := .cleanupAttempt ⟨.container, "web"⟩ ⟨2#128⟩ 9

theorem first_recordable : Recordable first where
  created := by decide
  started _ none := by cases none
  finished _ none := by cases none
  cutover _ none := by cases none
  recovery _ none := by cases none
  interruption _ none := by cases none
  steps _ := ⟨fun _ none => (by cases none), fun _ none => (by cases none)⟩
  release _ none := by cases none
  pinned _ none := by cases none

/-- A deployment with the release of another one. -/
def strange : Deployment := { first with release := some ⟨3#128⟩ }

end Kept

theorem torn_tails_recover_kept :
    TornTails Kept.others [.snapshot Kept.first, .ledger Kept.attempt] [.ledger Kept.attempt] [Kept.attempt]
      [Kept.attempt] 70 := by
  refine torn_tails_recover (fun r mem => ?_) (fun r mem => ?_) 70
  · simp only [List.cons_append, List.nil_append, List.mem_cons, List.not_mem_nil, or_false] at mem
    rcases mem with rfl | rfl | rfl
    · exact readable_snapshot Kept.first_recordable
    · exact readable_ledger (by decide)
    · exact readable_ledger (by decide)
  · simp only [List.cons_append, List.nil_append, List.mem_cons, List.not_mem_nil, or_false] at mem
    rcases mem with rfl | rfl <;> decide

/-- A journal with a record that is not read back is not read at all. -/
theorem unreadable_record_is_damage :
    ¬ ∀ (rs : List Record) (n : Nat), ∃ k found, ReadsPrefix Kept.others rs n k found := by
  intro all
  obtain ⟨k, found, reads⟩ := all [.snapshot Kept.strange] (fileBytes [.snapshot Kept.strange]).length
  have refused : (decodeSnapshot (snapshotFields Kept.strange)).isOk = false := by decide
  cases decoded : decodeSnapshot (snapshotFields Kept.strange) with
  | ok d => rw [decoded] at refused; cases refused
  | error e =>
    have bad : decodeLine Kept.others (Record.snapshot Kept.strange).encode = .error e := by
      rw [Record.encode, decodeLine_encodeSnapshot, decoded]
      rfl
    have read := reads.read
    rw [List.take_length, recover_unreadable bad] at read
    cases read

end Harpoon.Journal
