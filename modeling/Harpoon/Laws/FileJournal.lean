import Harpoon.Laws.TornTail

/-!
# A journal whose file fails

Writes, syncs and truncations may each fail, and what was not synced may be lost, whole or in part, before
the file is opened again. Whatever happened, the file then holds every record that was acknowledged, in
order, and at most a part of one more line: that of the first append that failed, after which nothing more
is written.
-/

namespace Harpoon.Journal

open Deploy Interact Process Wire

/-! ## Written on -/

section

variable {β : Type} {others : List String → Except String β} {rs : List Record} {r : Record} {b tail bytes : Bytes}
  {found : Recovered β} {ls ms : List Bytes} {n : Nat} {p : Progress β}

theorem recoverLines_append : recoverLines others n p (ls ++ ms) =
    recoverLines others n p ls >>= fun p => recoverLines others (n + ls.length) p ms := by
  induction ls generalizing n p with
  | nil => rfl
  | cons l ls ih =>
    rw [List.cons_append, recoverLines, recoverLines]
    cases recoverLine others n p l with
    | error e => rfl
    | ok p =>
      show recoverLines others (n + 1) p (ls ++ ms) = _
      rw [ih, List.length_cons, Nat.add_assoc, Nat.add_comm 1]
      rfl

/-- A file of whole lines, the first of which is a header. -/
def Whole (others : List String → Except String β) (b : Bytes) (lines : List (Line β)) : Prop :=
  ∃ ls, b = ofLines newline ls ∧ (∀ l ∈ ls, newline ∉ l) ∧ ls ≠ [] ∧
    recoverLines others 1 ⟨[], false⟩ ls = .ok ⟨lines, true⟩

/-- Records written after whole lines are read after them. -/
theorem Whole.recover {lines : List (Line β)} (whole : Whole others b lines)
    (readable : ∀ r ∈ rs, r.Readable others) (free : newline ∉ tail) :
    recover others (b ++ recordBytes rs ++ tail) =
      .ok ⟨lines ++ rs.map Record.line, (b ++ recordBytes rs).length, tailOf tail, true⟩ := by
  obtain ⟨ls, rfl, own, some, read⟩ := whole
  have all : ∀ l ∈ ls ++ rs.map (fun r => utf8 r.encode), newline ∉ l := by
    intro l mem
    rcases List.mem_append.mp mem with old | new
    · exact own l old
    · obtain ⟨r, _, rfl⟩ := List.mem_map.mp new
      exact newline_utf8 (encode_newline r)
  have later : 2 ≤ 1 + ls.length := by
    have := List.length_pos_iff.mpr some
    omega
  rw [recordBytes_eq, ← ofLines_append, recover_lines all free, recoverLines_append, read]
  simp only [bind, Except.bind]
  rw [recoverLines_records readable later]
  rfl

/-- After one more line, or a part of it, the file has one more record or a torn tail. -/
theorem Whole.recover_cut {lines : List (Line β)} (whole : Whole others b lines)
    (readable : ∀ x ∈ rs, x.Readable others) (last : r.Readable others) (n : Nat) :
    ∃ more found, Journal.recover others (b ++ recordBytes rs ++ (lineBytes r.encode).take n) = .ok found ∧
      found.lines = lines ++ (rs ++ more).map Record.line ∧ (more = [] ∨ more = [r]) := by
  have free : newline ∉ utf8 r.encode := newline_utf8 (encode_newline r)
  by_cases inside : n ≤ (utf8 r.encode).length
  · have part : (lineBytes r.encode).take n = (utf8 r.encode).take n := List.take_append_of_le_length inside
    have torn : newline ∉ (utf8 r.encode).take n := fun mem => free (List.mem_of_mem_take mem)
    exact ⟨[], _, part ▸ whole.recover readable torn, by rw [List.append_nil], .inl rfl⟩
  · have all : (lineBytes r.encode).take n = lineBytes r.encode := by
      refine List.take_of_length_le ?_
      rw [lineBytes, List.length_append, List.length_singleton]
      omega
    have one : recordBytes [r] = lineBytes r.encode := List.append_nil _
    have both : ∀ x ∈ rs ++ [r], x.Readable others := by
      intro x mem
      rcases List.mem_append.mp mem with old | new
      · exact readable x old
      · exact List.mem_singleton.mp new ▸ last
    have read := whole.recover both List.not_mem_nil
    rw [List.append_nil, recordBytes_append, one, ← List.append_assoc] at read
    exact ⟨[r], _, by rw [all]; exact read, rfl, .inr rfl⟩

end

/-! ## One write -/

/-- The handle may write: the file is `whole`, and after a crash that or one of `old`. -/
structure Sound (old : List Bytes) (whole : Bytes) (j : FileJournal) (d : Disk) : Prop where
  unbroken : j.broken = none
  len : j.len = whole.length
  cached : d.cached = whole
  contents : ∀ c ∈ d.contents, c = whole ∨ c ∈ old

/-- The file is `whole` and a part of the line, whatever happens. -/
def Left (old : List Bytes) (whole : Bytes) (line : String) (d : Disk) : Prop :=
  ∀ c ∈ d.contents, (∃ n, c = whole ++ (lineBytes line).take n) ∨ c ∈ old

section

variable {ε : Type} {old : List Bytes} {whole : Bytes} {line why : String} {j : FileJournal} {d : Disk} {n : Nat}

theorem Sound.left (sound : Sound old whole j d) : Left old whole line d := by
  intro c mem
  rcases sound.contents c mem with rfl | before
  · exact .inl ⟨0, (List.append_nil _).symm⟩
  · exact .inr before

theorem Left.append (left : Left old whole line d) (cached : d.cached = whole) :
    Left old whole line (d.append ((lineBytes line).take n)) := by
  intro c mem
  rcases Disk.mem_append mem with before | ⟨m, rfl⟩
  · exact left c before
  · exact .inl ⟨min m n, by rw [cached, List.take_take]⟩

theorem Left.truncate (left : Left old whole line d) (cut : d.cached.take n = whole) :
    Left old whole line (d.truncate n) := by
  intro c mem
  rcases Disk.mem_truncate mem with before | rfl
  · exact left c before
  · exact .inl ⟨0, cut.trans (List.append_nil _).symm⟩

theorem Left.durable (left : Left old whole line d) : Left old whole line (.durable d.cached) := by
  intro c mem
  rw [Disk.contents_durable, List.mem_singleton] at mem
  exact mem ▸ left _ Disk.cached_mem

/-- Cutting the torn line off, whether that works or not. -/
theorem truncateAndSync_meets (left : Left old whole line d) (cut : d.cached.take n = whole) :
    Meets Disk.see (fun d _ => Left old whole line d) (FileJournal.truncateAndSync (ε := ε) n)
      (fun _ j' d' => j' = j ∧ Left old whole line d') (fun _ _ _ => False) j d := by
  have cutOff := left.truncate cut
  refine meets_bind.mpr (meets_perform.mpr ⟨left, fun answer => ?_⟩)
  cases answer with
  | ok =>
    refine meets_perform.mpr ⟨cutOff, fun answer => ⟨rfl, ?_⟩⟩
    cases answer with
    | ok => exact cutOff.durable
    | failed _ _ => exact cutOff
  | failed why done =>
    refine ⟨rfl, ?_⟩
    show Left old whole line (if done = 0 then d else d.truncate n)
    split
    · exact left
    · exact cutOff

/-- A write of a sound handle is acknowledged, and then it is durable; or it fails, and the handle is
broken. -/
theorem appendLine_meets (line : String) (sound : Sound old whole j d) :
    Meets Disk.see (fun d _ => Left old whole line d) (FileJournal.appendLine line)
      (fun _ j' d' => Sound [] (whole ++ lineBytes line) j' d')
      (fun _ j' d' => j'.broken.isSome = true ∧ Left old whole line d') j d := by
  have left : Left old whole line d := sound.left
  refine meets_bind.mpr (meets_get.mpr ?_)
  rw [sound.unbroken]
  refine meets_bind.mpr (meets_set.mpr ?_)
  refine meets_bind.mpr (meets_perform.mpr ⟨left, fun answer => ?_⟩)
  cases answer with
  | failed why done =>
    have torn := left.append (n := done) sound.cached
    have cut : (d.append ((lineBytes line).take done)).cached.take j.len = whole := by
      show (d.cached ++ _).take j.len = whole
      rw [sound.cached, sound.len, List.take_left]
    refine meets_bind.mpr ((truncateAndSync_meets torn cut).mono ?_ fun _ _ _ none => none.elim)
    rintro _ _ d' ⟨rfl, left'⟩
    exact ⟨rfl, left'⟩
  | ok =>
    have written : Left old whole line (d.append (lineBytes line)) := by
      have all := left.append (n := (lineBytes line).length) sound.cached
      rwa [List.take_length] at all
    refine meets_bind.mpr (meets_modify.mpr ?_)
    refine meets_bind.mpr (meets_perform.mpr ⟨written, fun answer => ?_⟩)
    cases answer with
    | failed why _ => exact ⟨rfl, written⟩
    | ok =>
      have cached : (d.append (lineBytes line)).cached = whole ++ lineBytes line := by
        show d.cached ++ _ = _
        rw [sound.cached]
      refine ⟨rfl, ?_, cached, fun c mem => ?_⟩
      · show j.len + _ = _
        rw [sound.len, List.length_append]
      · exact .inl ((List.mem_singleton.mp mem).trans cached)

/-- A broken handle asks nothing of the file. -/
theorem appendLine_broken {h : History WalSig} {q : Program WalSig (Except JournalError Unit × FileJournal)}
    (broken : j.broken.isSome = true)
    (follows : Program.Follows ((FileJournal.appendLine line).toProgram j) h q) :
    h = [] ∧ ∃ e, q = .done (.error e, j) := by
  obtain ⟨why, isBroken⟩ := Option.isSome_iff_exists.mp broken
  have refused : (FileJournal.appendLine line).toProgram j =
      .done (.error (.io (FileJournal.unusable why)), j) := by
    obtain ⟨len, broken, stats⟩ := j
    cases isBroken
    rfl
  rw [refused] at follows
  obtain ⟨rfl, rfl⟩ := follows.done_inv
  exact ⟨rfl, _, rfl⟩

end

/-! ## Opening -/

section

variable {β σ : Type} {keep : Keeping β σ} {others : List String → Except String β} {found : Recovered β}
  {bytes : Bytes} {ls : List Bytes} {n : Nat} {p p' : Progress β}

/-- The first line must be a header, and no other line may be one. -/
theorem recoverLine_ok {l : Bytes} (ok : recoverLine others n p l = .ok p') :
    if n = 1 then p' = { p with hasHeader := true } else ∃ line, p' = { p with lines := p.lines ++ [line] } := by
  unfold recoverLine at ok
  cases text : fromUtf8 l with
  | none => rw [text] at ok; cases ok
  | some text' =>
    rw [text] at ok
    simp only [bind, Except.bind] at ok
    cases read : decodeLine others text' with
    | error e => rw [read] at ok; cases ok
    | ok line =>
      rw [read] at ok
      cases line with
      | header version =>
        simp only [mapError_ok] at ok
        split at ok
        · cases ok
        next first =>
          split at ok
          · cases ok
          · cases ok
            rw [if_pos (Decidable.not_not.mp first)]
      | snapshot _ | ledger _ | control _ | other _ =>
        simp only [mapError_ok] at ok
        split at ok
        · cases ok
        next later =>
          cases ok
          rw [if_neg later]
          exact ⟨_, rfl⟩

theorem recoverLines_later (ok : recoverLines others n p ls = .ok p') (later : 2 ≤ n) :
    p'.hasHeader = p.hasHeader := by
  induction ls generalizing n p with
  | nil => cases ok; rfl
  | cons l ls ih =>
    rw [recoverLines] at ok
    cases first : recoverLine others n p l with
    | error e => rw [first] at ok; cases ok
    | ok p₁ =>
      rw [first] at ok
      have step := recoverLine_ok first
      rw [if_neg (by omega)] at step
      obtain ⟨line, rfl⟩ := step
      exact ih (p := { p with lines := p.lines ++ [line] }) ok (Nat.le_succ_of_le later)

/-- A file has a header exactly when it has a whole line. -/
theorem recoverLines_hasHeader (ok : recoverLines others 1 ⟨[], false⟩ ls = .ok p) :
    (p.hasHeader = true ↔ ls ≠ []) ∧ (ls = [] → p.lines = []) := by
  cases ls with
  | nil => cases ok; simp
  | cons l ls =>
    rw [recoverLines] at ok
    cases first : recoverLine others 1 ⟨[], false⟩ l with
    | error e => rw [first] at ok; cases ok
    | ok p₁ =>
      rw [first] at ok
      have step := recoverLine_ok first
      rw [if_pos rfl] at step
      have header := recoverLines_later ok (Nat.le_refl 2)
      rw [step] at header
      simp [header]

/-- What reading a file finds, and what opening it leaves. -/
structure Opens (others : List String → Except String β) (bytes : Bytes) (found : Recovered β) : Prop where
  read : recover others bytes = .ok found
  /-- The file is its whole lines and its tail. -/
  split : ∃ tail, bytes = bytes.take found.validLen ++ tail ∧ found.tail = tailOf tail
  validLen : found.validLen ≤ bytes.length
  bare : found.hasHeader = false → found.validLen = 0
  whole : Whole others (reopened found bytes) found.lines

theorem opens_of_recover (read : recover others bytes = .ok found) : Opens others bytes found := by
  obtain ⟨lines, free⟩ := cutLines_free newline bytes
  have parts := ofLines_cutLines newline bytes
  generalize cut : (cutLines newline bytes).1 = ls at lines parts
  generalize (cutLines newline bytes).2 = tail at free parts
  subst parts
  have again := read
  rw [recover_lines lines free] at again
  cases progress : recoverLines others 1 ⟨[], false⟩ ls with
  | error e => rw [progress] at again; cases again
  | ok p =>
    rw [progress] at again
    cases again
    obtain ⟨header, empty⟩ := recoverLines_hasHeader progress
    have bare : p.hasHeader = false → ls = [] := fun none =>
      Decidable.byContradiction fun some => by rw [header.mpr some] at none; cases none
    refine ⟨read, ⟨tail, by rw [List.take_left], rfl⟩, by simp, fun none => ?_, ?_⟩
    · rw [bare none]
      rfl
    · unfold reopened
      dsimp only
      rw [List.take_left]
      by_cases has : p.hasHeader = true
      · rw [if_pos has, List.append_nil]
        refine ⟨ls, rfl, lines, header.mp has, ?_⟩
        rw [progress, ← has]
      · have none := bare (Bool.eq_false_iff.mpr has)
        rw [if_neg has, none, empty none]
        refine ⟨fileLines [], ?_, fileLines_free, List.cons_ne_nil _ _, recoverLines_file fun _ mem => by cases mem⟩
        rw [← fileBytes_eq, fileBytes_nil]
        exact List.nil_append headerBytes

theorem discarded_tailOf {tail : Bytes} : FileJournal.discarded (tailOf tail) = tail.length := by
  unfold tailOf
  split
  next empty => rw [empty]; rfl
  next => rfl

end

section

variable {β σ ε : Type} {keep : Keeping β σ} {found : Recovered β} {bytes whole : Bytes} {old : List Bytes}
  {j : FileJournal} {d : Disk} {n : Nat}

/-- If both went well, the file is what was left, durably. -/
theorem truncateAndSync_ok : Meets Disk.see (fun _ _ => True) (FileJournal.truncateAndSync (ε := ε) n)
    (fun answer j' d' => j' = j ∧ (answer = .ok → d' = .durable (d.cached.take n))) (fun _ _ _ => True) j d := by
  refine meets_bind.mpr (meets_perform.mpr ⟨trivial, fun answer => ?_⟩)
  cases answer with
  | ok =>
    refine meets_perform.mpr ⟨trivial, fun answer => ⟨rfl, ?_⟩⟩
    rintro rfl
    rfl
  | failed why done => exact ⟨rfl, fun ok => by cases ok⟩

theorem cutTail_meets (opens : Opens keep.decode bytes found) (cached : d.cached = bytes)
    (unbroken : j.broken = none) (len : j.len = bytes.length) :
    Meets Disk.see (fun _ _ => True) (FileJournal.cutTail found)
      (fun _ j' d' => Sound d.crashed (bytes.take found.validLen) j' d') (fun _ _ _ => True) j d := by
  obtain ⟨tail, split, isTail⟩ := opens.split
  unfold FileJournal.cutTail
  split
  next =>
    refine meets_bind.mpr (truncateAndSync_ok.mono ?_ fun _ _ _ _ => trivial)
    rintro answer _ d' ⟨rfl, left⟩
    cases answer with
    | failed _ _ => exact trivial
    | ok =>
      have durable := left rfl
      rw [cached] at durable
      refine ⟨unbroken, ?_, by rw [durable]; rfl, fun c mem => .inl ?_⟩
      · exact (List.length_take_of_le opens.validLen).symm
      · rw [durable, Disk.contents_durable] at mem
        exact List.mem_singleton.mp mem
  next clean =>
    have none : tail = [] := by
      rw [isTail, discarded_tailOf] at clean
      exact List.length_eq_zero_iff.mp (by omega)
    have all : bytes = bytes.take found.validLen := by rw [none, List.append_nil] at split; exact split
    rw [← all]
    refine ⟨unbroken, len, cached, fun c mem => ?_⟩
    rcases List.mem_cons.mp mem with rfl | before
    · exact .inl cached
    · exact .inr before

theorem writeHeader_meets (sound : Sound old whole j d) :
    Meets Disk.see (fun _ _ => True) (FileJournal.writeHeader found)
      (fun _ j' d' => Sound old (whole ++ if found.hasHeader then [] else headerBytes) j' d')
      (fun _ _ _ => True) j d := by
  unfold FileJournal.writeHeader
  cases found.hasHeader with
  | true =>
    rw [if_neg (by simp), if_pos rfl, List.append_nil]
    exact sound
  | false =>
    rw [if_pos (by simp), if_neg (by simp)]
    refine meets_bind.mpr (meets_perform.mpr ⟨trivial, fun answer => ?_⟩)
    cases answer with
    | failed _ _ => exact trivial
    | ok =>
      refine meets_bind.mpr (meets_modify.mpr (meets_bind.mpr (meets_attempt.mpr ?_)))
      have counted : Sound old whole { j with stats := { j.stats with dirSyncs := j.stats.dirSyncs + 1 } } d :=
        ⟨sound.unbroken, sound.len, sound.cached, sound.contents⟩
      refine ((appendLine_meets _ counted).under fun _ _ _ => trivial).mono ?_ fun _ _ _ _ => trivial
      rintro _ j' d' ⟨unbroken, len, cached, contents⟩
      exact ⟨unbroken, len, cached, fun c mem => (contents c mem).imp id fun none => by cases none⟩

/-- A journal that was opened has a sound handle on the whole lines of its file. -/
theorem openWith_meets (cached : d.cached = bytes) :
    Meets Disk.see (fun _ _ => True) (FileJournal.openWith keep bytes)
      (fun _ j' d' => ∃ found, Opens keep.decode bytes found ∧ Sound d.crashed (reopened found bytes) j' d')
      (fun _ _ _ => True) j d := by
  refine meets_bind.mpr (meets_ofExcept (fun found read => ?_) fun _ _ => trivial)
  have opens := opens_of_recover read
  split
  · exact trivial
  · refine meets_bind.mpr (meets_ofExcept (fun state _ => ?_) fun _ _ => trivial)
    refine meets_bind.mpr (meets_set.mpr (meets_bind.mpr ?_))
    refine (cutTail_meets opens cached rfl rfl).mono (fun _ j' d' sound => ?_) fun _ _ _ _ => trivial
    refine meets_bind.mpr ((writeHeader_meets sound).mono (fun _ j'' d'' sound' => ?_) fun _ _ _ _ => trivial)
    exact ⟨found, opens, sound'⟩

end

/-! ## A handle -/

/-- A record that was handed to a journal, and what its append returned. -/
abbrev Handed := Record × Except JournalError Unit

/-- The records that were acknowledged, in order. -/
def acknowledged (done : List Handed) : List Record := (done.filter fun p => p.2.isOk).map Prod.fst

/-- The first record whose append returned an error. -/
def firstFailed (done : List Handed) : Option Record := (done.find? fun p => !p.2.isOk).map Prod.fst

/-- A journal that was opened on a disk, and the appends that returned since. -/
inductive Handle {β σ : Type} (keep : Keeping β σ) (d₀ : Disk) : List Handed → FileJournal → Disk → Prop where
  | opened {j₀ j : FileJournal} {h : History WalSig} {restored : FileJournal.Restored σ}
      (follows : Program.Follows ((FileJournal.openWith keep d₀.cached).toProgram j₀) h (.done (.ok restored, j))) :
      Handle keep d₀ [] j (h.seen Disk.see d₀)
  | append {done : List Handed} {j j' : FileJournal} {d : Disk} {h : History WalSig} {result : Except JournalError Unit}
      (r : Record) (before : Handle keep d₀ done j d)
      (follows : Program.Follows ((FileJournal.append r).toProgram j) h (.done (result, j'))) :
      Handle keep d₀ (done ++ [(r, result)]) j' (h.seen Disk.see d)

/-- The invariant of a handle: it is sound after the acknowledged records, or broken in the line of the
first one that failed. -/
def Standing (b : Bytes) (crashed : List Bytes) (done : List Handed) (j : FileJournal) (d : Disk) : Prop :=
  ∃ old : List Bytes, (∀ c ∈ old, acknowledged done = [] ∧ c ∈ crashed) ∧
    ((firstFailed done = none ∧ Sound old (b ++ recordBytes (acknowledged done)) j d) ∨
      ∃ r, firstFailed done = some r ∧ j.broken.isSome = true ∧
        Left old (b ++ recordBytes (acknowledged done)) r.encode d)

section

variable {β σ : Type} {keep : Keeping β σ} {others : List String → Except String β} {d₀ d : Disk} {j j' : FileJournal}
  {done : List Handed} {r : Record} {b : Bytes} {crashed : List Bytes} {h : History WalSig}
  {q : Program WalSig (Except JournalError Unit × FileJournal)} {result : Except JournalError Unit}

theorem append_eq (r : Record) : FileJournal.append r = FileJournal.appendLine r.encode := by cases r <;> rfl

theorem acknowledged_taken : acknowledged (done ++ [(r, .ok ())]) = acknowledged done ++ [r] := by
  rw [acknowledged, List.filter_append, List.map_append]
  rfl

theorem acknowledged_refused {e : JournalError} : acknowledged (done ++ [(r, .error e)]) = acknowledged done := by
  rw [acknowledged, List.filter_append, List.map_append]
  exact List.append_nil _

theorem firstFailed_taken : firstFailed (done ++ [(r, .ok ())]) = firstFailed done := by
  rw [firstFailed, List.find?_append]
  exact congrArg _ Option.or_none

theorem firstFailed_refused {e : JournalError} :
    firstFailed (done ++ [(r, .error e)]) = (firstFailed done).or (some r) := by
  rw [firstFailed, firstFailed, List.find?_append]
  cases done.find? fun p => !p.2.isOk <;> rfl

/-- Wherever an append is cut short, the file holds what was acknowledged and a part of one line. -/
theorem Standing.left (standing : Standing b crashed done j d)
    (follows : Program.Follows ((FileJournal.append r).toProgram j) h q) :
    ∃ old line, (∀ c ∈ old, acknowledged done = [] ∧ c ∈ crashed) ∧ (firstFailed done).or (some r) = some line ∧
      Left old (b ++ recordBytes (acknowledged done)) line.encode (h.seen Disk.see d) := by
  rw [append_eq] at follows
  obtain ⟨old, since, ⟨none, sound⟩ | ⟨first, failed, broken, left⟩⟩ := standing
  · refine ⟨old, r, since, by rw [none]; rfl, ?_⟩
    obtain ⟨obeys, _⟩ := Program.Obeys.follows (appendLine_meets r.encode sound) follows
    cases q with
    | ask op next => exact obeys.1
    | done value =>
      obtain ⟨result, j'⟩ := value
      cases result with
      | error e => exact obeys.2
      | ok _ =>
        intro c mem
        refine .inl ⟨(lineBytes r.encode).length, ?_⟩
        rw [List.take_length]
        exact (obeys.contents c mem).resolve_right fun none => by cases none
  · obtain ⟨rfl, _⟩ := appendLine_broken broken follows
    exact ⟨old, first, since, by rw [failed]; rfl, left⟩

/-- Step lemma. -/
theorem Standing.append (standing : Standing b crashed done j d)
    (follows : Program.Follows ((FileJournal.append r).toProgram j) h (.done (result, j'))) :
    Standing b crashed (done ++ [(r, result)]) j' (h.seen Disk.see d) := by
  rw [append_eq] at follows
  rw [Standing]
  obtain ⟨old, since, ⟨none, sound⟩ | ⟨first, failed, broken, left⟩⟩ := standing
  · have ended := Program.Obeys.ended (appendLine_meets r.encode sound) follows
    cases result with
    | ok _ =>
      have sound' : Sound [] _ j' _ := ended
      have one : recordBytes [r] = lineBytes r.encode := List.append_nil _
      rw [acknowledged_taken, firstFailed_taken, recordBytes_append, one, ← List.append_assoc]
      exact ⟨[], fun c none => (by cases none), .inl ⟨none, sound'⟩⟩
    | error e =>
      rw [acknowledged_refused, firstFailed_refused]
      exact ⟨old, since, .inr ⟨r, by rw [none]; rfl, ended.1, ended.2⟩⟩
  · obtain ⟨rfl, e, ends⟩ := appendLine_broken broken follows
    cases ends
    rw [acknowledged_refused, firstFailed_refused]
    exact ⟨old, since, .inr ⟨first, by rw [failed]; rfl, broken, left⟩⟩

/-- Run lemma. -/
theorem Handle.standing (handle : Handle keep d₀ done j d) :
    ∃ found, Opens keep.decode d₀.cached found ∧ Standing (reopened found d₀.cached) d₀.crashed done j d := by
  induction handle with
  | opened follows =>
    obtain ⟨found, opens, sound⟩ := Program.Obeys.ended (openWith_meets rfl) follows
    refine ⟨found, opens, d₀.crashed, fun c mem => ⟨rfl, mem⟩, .inl ⟨rfl, ?_⟩⟩
    rw [show recordBytes (acknowledged []) = [] from rfl, List.append_nil]
    exact sound
  | append r _ follows ih =>
    obtain ⟨found, opens, standing⟩ := ih
    exact ⟨found, opens, standing.append follows⟩

/-- Once an append returned an error, every later one does. -/
theorem Handle.refuses (handle : Handle keep d₀ done j d) {before after : List Handed} {p : Handed}
    (split : done = before ++ p :: after) (failed : p.2.isOk = false) : ∀ x ∈ after, x.2.isOk = false := by
  induction handle generalizing after with
  | opened _ => simp at split
  | @append done j j' d h result r prior follows ih =>
    rcases List.eq_nil_or_concat after with rfl | ⟨rest, x, rfl⟩
    · exact fun x mem => by cases mem
    · rw [List.concat_eq_append, ← List.cons_append, ← List.append_assoc] at split
      obtain ⟨earlier, last⟩ := List.append_inj' split rfl
      cases last
      intro y mem
      rw [List.concat_eq_append] at mem
      rcases List.mem_append.mp mem with old | new
      · exact ih earlier y old
      · cases List.mem_singleton.mp new
        obtain ⟨_, _, old, _, ⟨none, _⟩ | ⟨_, _, broken, _⟩⟩ := prior.standing
        · have all := Option.map_eq_none_iff.mp none
          have ok := List.find?_eq_none.mp all p (earlier ▸ List.mem_append_right _ List.mem_cons_self)
          simp [failed] at ok
        · rw [append_eq] at follows
          obtain ⟨_, e, ends⟩ := appendLine_broken broken follows
          cases ends
          rfl

/-- A file that is opened again holds the records it held, then those of `records`, then at most the record
`last`. -/
def Reopens (others : List String → Except String β) (lines : List (Line β)) (records : List Record)
    (last : Option Record) (c : Bytes) : Prop :=
  ∃ more found, recover others c = .ok found ∧ found.lines = lines ++ (records ++ more).map Record.line ∧
    (more = [] ∨ ∃ r, last = some r ∧ more = [r])

theorem Left.reopens {old : List Bytes} {lines : List (Line β)} {records : List Record} {c : Bytes}
    (left : Left old (b ++ recordBytes records) r.encode d) (whole : Whole others b lines)
    (readable : ∀ x ∈ records, x.Readable others) (last : r.Readable others) (mem : c ∈ d.contents) :
    Reopens others lines records (some r) c ∨ c ∈ old := by
  rcases left c mem with ⟨n, rfl⟩ | before
  · obtain ⟨more, found, read, lines', one⟩ := whole.recover_cut readable last n
    exact .inl ⟨more, found, read, lines', one.imp id fun one => ⟨r, rfl, one⟩⟩
  · exact .inr before

theorem readable_acknowledged (readable : ∀ p ∈ done, p.1.Readable others) :
    ∀ x ∈ acknowledged done, x.Readable others := by
  intro x mem
  obtain ⟨p, inside, rfl⟩ := List.mem_map.mp mem
  exact readable p (List.mem_filter.mp inside).1

theorem readable_concat (readable : ∀ p ∈ done, p.1.Readable others) (last : r.Readable others) :
    ∀ p ∈ done ++ [(r, result)], p.1.Readable others := by
  intro p mem
  rcases List.mem_append.mp mem with old | new
  · exact readable p old
  · rw [List.mem_singleton.mp new]
    exact last

theorem readable_firstFailed (readable : ∀ p ∈ done, p.1.Readable others) (failed : firstFailed done = some r) :
    r.Readable others := by
  obtain ⟨p, found, rfl⟩ := Option.map_eq_some_iff.mp failed
  exact readable p (List.mem_of_find?_eq_some found)

/-- What faults cannot take away: `found` was in the file when it was opened on `d₀`, and `done` came to its
end since. -/
structure Outlasts (keep : Keeping β σ) (d₀ : Disk) (done : List Handed) (j : FileJournal) (d : Disk)
    (found : Recovered β) : Prop where
  read : recover keep.decode d₀.cached = .ok found
  /-- Between two appends. Before anything was synced, a crash may still undo what came before. -/
  between : ∀ c ∈ d.contents, (acknowledged done = [] ∧ c ∈ d₀.crashed) ∨
    Reopens keep.decode found.lines (acknowledged done) (firstFailed done) c
  /-- Anywhere in the next append. -/
  during : ∀ r : Record, r.Readable keep.decode → ∀ h q,
    Program.Follows ((FileJournal.append r).toProgram j) h q → ∀ c ∈ (h.seen Disk.see d).contents,
      (acknowledged done = [] ∧ c ∈ d₀.crashed) ∨
        Reopens keep.decode found.lines (acknowledged done) ((firstFailed done).or (some r)) c
  /-- Once an append returned an error, none is acknowledged. -/
  refuses : ∀ before p after, done = before ++ p :: after → p.2.isOk = false → ∀ x ∈ after, x.2.isOk = false

/-- Under every pattern of failed writes, syncs and truncations, and of crashes, the file keeps every record
that was acknowledged, and at most the first one that was not. -/
theorem faults_keep_acknowledged (handle : Handle keep d₀ done j d)
    (readable : ∀ p ∈ done, p.1.Readable keep.decode) : ∃ found, Outlasts keep d₀ done j d found := by
  obtain ⟨found, opens, standing⟩ := handle.standing
  have kept := readable_acknowledged readable
  refine ⟨found, opens.read, fun c mem => ?_, fun r last h q follows c mem => ?_,
    fun before p after split failed => handle.refuses split failed⟩
  · obtain ⟨old, since, ⟨none, sound⟩ | ⟨r, failed, _, left⟩⟩ := standing
    · rcases sound.contents c mem with same | before
      · have whole := opens.whole.recover kept List.not_mem_nil
        rw [List.append_nil, ← same] at whole
        exact .inr ⟨[], _, whole, by rw [List.append_nil], .inl rfl⟩
      · exact .inl (since c before)
    · rcases left.reopens opens.whole kept (readable_firstFailed readable failed) mem with here | before
      · exact .inr (failed ▸ here)
      · exact .inl (since c before)
  · obtain ⟨old, line, since, isLine, left⟩ := standing.left follows
    have written : line.Readable keep.decode := by
      cases failed : firstFailed done with
      | none => rw [failed] at isLine; cases isLine; exact last
      | some first => rw [failed] at isLine; cases isLine; exact readable_firstFailed readable failed
    rcases left.reopens opens.whole kept written mem with here | before
    · exact .inr (isLine ▸ here)
    · exact .inl (since c before)

end

/-! ### Two appends, the first of which is not synced -/

namespace Kept

def keep : Keeping Unit Unit where
  decode := others
  empty := ()
  apply _ _ := .ok ()
  checkLogs _ _ := .ok ()
  checkPins _ _ := .ok ()

def blank : FileJournal := ⟨0, none, ⟨0, 0, 0⟩⟩

def second : LedgerRecord := .cleanupAttempt ⟨.container, "db"⟩ ⟨2#128⟩ 11

/-- The file was just created. -/
def empty : Disk := .durable []

def opening : History WalSig × Except FileJournal.OpenError (FileJournal.Restored Unit) × FileJournal :=
  ((FileJournal.openWith keep empty.cached).toProgram blank).play (S := WalSig) fun _ => .ok

/-- A file whose syncs fail or do not. -/
def answers (failing : Bool) : WalOp → WalAnswer
  | .sync => if failing then .failed "no space" 0 else .ok
  | .append _ | .truncate _ | .syncDir => .ok

def appending (failing : Bool) (r : Record) (j : FileJournal) :
    History WalSig × Except JournalError Unit × FileJournal :=
  ((FileJournal.append r).toProgram j).play (S := WalSig) (answers failing)

theorem opened : Handle keep empty [] opening.2.2 (opening.1.seen Disk.see empty) := by
  have ok : opening.2.1.isOk = true := by decide
  cases out : opening.2.1 with
  | error e => rw [out] at ok; cases ok
  | ok restored => exact .opened (Program.play_follows_pair (S := WalSig) (fun _ => .ok) _ out)

theorem appended {done : List Handed} {j : FileJournal} {d : Disk} (handle : Handle keep empty done j d)
    (failing : Bool) (r : Record) :
    Handle keep empty (done ++ [(r, (appending failing r j).2.1)]) (appending failing r j).2.2
      ((appending failing r j).1.seen Disk.see d) :=
  .append r handle (Program.play_follows (S := WalSig) (answers failing) _)

theorem left_there :
    ((appending false (.ledger second) (appending true (.ledger attempt) opening.2.2).2.2).1.seen Disk.see
      ((appending true (.ledger attempt) opening.2.2).1.seen Disk.see (opening.1.seen Disk.see empty))).cached =
    fileBytes [.ledger attempt] := by
  decide +kernel

end Kept

theorem faults_keep_acknowledged_kept :
    ∃ done j d found, Outlasts Kept.keep Kept.empty done j d found ∧ (acknowledged done).length = 1 ∧
      (firstFailed done).isSome = true := by
  have handle := Kept.appended (Kept.appended Kept.opened false (.snapshot Kept.first)) true (.ledger Kept.attempt)
  have none : ∀ p ∈ ([] : List Handed), p.1.Readable Kept.keep.decode := fun _ mem => by cases mem
  have ledger : (Record.ledger Kept.attempt).Readable Kept.keep.decode := readable_ledger (by decide)
  obtain ⟨found, outlasts⟩ := faults_keep_acknowledged handle
    (readable_concat (readable_concat none (readable_snapshot Kept.first_recordable)) ledger)
  exact ⟨_, _, _, found, outlasts, by decide, by decide⟩

/-- The record that is found without having been acknowledged need not be the last one that was refused. -/
theorem first_failed_is_found :
    ∃ done j d, Handle Kept.keep Kept.empty done j d ∧ acknowledged done = [] ∧
      done.getLast?.map Prod.fst = some (.ledger Kept.second) ∧
      ∃ c ∈ d.contents, ∃ found, recover Kept.others c = .ok found ∧
        found.lines = [Record.ledger Kept.attempt].map Record.line := by
  have handle := Kept.appended (Kept.appended Kept.opened true (.ledger Kept.attempt)) false (.ledger Kept.second)
  have ledger : (Record.ledger Kept.attempt).Readable Kept.others := readable_ledger (by decide)
  have read : recover Kept.others (fileBytes [.ledger Kept.attempt] ++ []) = _ :=
    recover_file (fun r mem => List.mem_singleton.mp mem ▸ ledger) List.not_mem_nil
  rw [List.append_nil] at read
  refine ⟨_, _, _, handle, List.length_eq_zero_iff.mp (by decide), ?_, _, Disk.cached_mem, _,
    Kept.left_there ▸ read, rfl⟩
  rw [List.getLast?_concat]
  rfl

end Harpoon.Journal
