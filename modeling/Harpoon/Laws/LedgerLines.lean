import Harpoon.Laws.LedgerCodec

/-!
# The lines of the ledger

Which lines are read as a ledger record: those that spell its fields. A number may have a sign or zeros in front,
a carriage return may stand for itself, and the message of an outcome that has none is not looked at. Nothing else
is read.
-/

namespace Harpoon.Journal

open Deploy Wire

/-! ## Texts -/

/-- An escaped text in which a carriage return that stood for itself is escaped as well. -/
def canonicalText : List Char → List Char
  | [] => []
  | ['\\'] => ['\\']
  | '\\' :: c :: cs => '\\' :: c :: canonicalText cs
  | c :: cs => (if c = '\r' then ['\\', 'r'] else [c]) ++ canonicalText cs

section

variable {s t : String} {c d : Char} {cs ts : List Char}

theorem escChar_of_escaped (back : escaped d = some c) : escChar c = ['\\', d] := by
  unfold escaped at back
  split at back <;> cases back <;> rfl

theorem escChar_plain (other : c ≠ '\\') (tab : c ≠ '\t') (newline : c ≠ '\n') (cr : c ≠ '\r') : escChar c = [c] := by
  unfold escChar
  split
  · exact absurd rfl other
  · exact absurd rfl tab
  · exact absurd rfl newline
  · exact absurd rfl cr
  · rfl

theorem unescChars_escape : unescChars ('\\' :: c :: cs) =
    (escaped c).bind fun d => (unescChars cs).bind fun ds => some (d :: ds) := rfl

theorem unescChars_canonicalText (cs : List Char) : unescChars (canonicalText cs) = unescChars cs := by
  fun_induction canonicalText cs with
  | case1 | case2 => rfl
  | case3 c cs ih => rw [unescChars_escape, unescChars_escape, ih]
  | case4 c cs last more ih =>
    have other : c ≠ '\\' := by
      rintro rfl
      cases cs with
      | nil => exact last rfl rfl
      | cons d ds => exact more d ds rfl rfl
    rw [unescChars_plain other]
    split
    next cr => rw [List.cons_append, List.cons_append, List.nil_append, unescChars_escape, ih, cr]; rfl
    next => rw [List.cons_append, List.nil_append, unescChars_plain other, ih]

theorem canonicalText_of_unescChars (tab : '\t' ∉ cs) (newline : '\n' ∉ cs) (read : unescChars cs = some ts) :
    canonicalText cs = ts.flatMap escChar := by
  fun_induction canonicalText cs generalizing ts with
  | case1 =>
    cases read
    rfl
  | case2 => cases read
  | case3 c cs ih =>
    rw [unescChars_escape] at read
    obtain ⟨d, back, read⟩ := Option.bind_eq_some_iff.mp read
    obtain ⟨ds, rest, read⟩ := Option.bind_eq_some_iff.mp read
    cases read
    simp only [List.mem_cons, not_or] at tab newline
    rw [ih tab.2.2 newline.2.2 rest, List.flatMap_cons, escChar_of_escaped back]
    rfl
  | case4 c cs last more ih =>
    have other : c ≠ '\\' := by
      rintro rfl
      cases cs with
      | nil => exact last rfl rfl
      | cons d ds => exact more d ds rfl rfl
    rw [unescChars_plain other] at read
    obtain ⟨ds, rest, read⟩ := Option.bind_eq_some_iff.mp read
    cases read
    simp only [List.mem_cons, not_or] at tab newline
    rw [ih tab.2 newline.2 rest, List.flatMap_cons]
    split
    next cr =>
      rw [cr]
      rfl
    next cr => rw [escChar_plain other (Ne.symm tab.1) (Ne.symm newline.1) cr]

/-- What is read as a text is the text with its escapes, of which that of a carriage return is optional. -/
theorem unesc_iff (plain : Plain s) : unesc s = some t ↔ canonicalText s.toList = (esc t).toList := by
  rw [unesc, esc, String.toList_ofList]
  constructor
  · intro read
    obtain ⟨ts, chars, rfl⟩ := Option.map_eq_some_iff.mp read
    rw [String.toList_ofList]
    exact canonicalText_of_unescChars plain.tab plain.newline chars
  · intro same
    rw [← unescChars_canonicalText, same, unescChars_esc]
    simp

end

/-! ## Fields -/

/-- The text of a field, with every escape made. -/
def canonicalField (s : String) : String := String.ofList (canonicalText s.toList)

def canonicalNumber (s : String) : String := String.ofList (canonicalDigits (signless s))

/-- The message of an outcome; only a failure has one. -/
def canonicalMessage (outcome message : String) : String :=
  if outcome = "removed" ∨ outcome = "absent" then "" else canonicalField message

/-- The fields of a record that are spelled like this, as they are written. -/
def canonicalFields (f : List String) : Option (List String) :=
  match f.headD "", f.drop 1 with
  | "intent", [kind, name, app, deployment, disposition, atMs] =>
    some ["intent", kind, canonicalField name, app, deployment, disposition, canonicalNumber atMs]
  | "receipt", [kind, name, deployment, id, atMs] =>
    some ["receipt", kind, canonicalField name, deployment, canonicalField id, canonicalNumber atMs]
  | "attempt", [kind, name, deployment, atMs] =>
    some ["attempt", kind, canonicalField name, deployment, canonicalNumber atMs]
  | "result", [kind, name, deployment, outcome, message, atMs] =>
    some ["result", kind, canonicalField name, deployment, outcome, canonicalMessage outcome message,
      canonicalNumber atMs]
  | _, _ => none

section

variable {s t why : String} {n : Nat} {r : LedgerRecord} {f : List String}

theorem need_iff {α : Type} {o : Option α} {a : α} : need why o = .ok a ↔ o = some a :=
  ⟨need_ok, fun same => by rw [same]; rfl⟩

theorem canonicalField_iff (plain : Plain s) : unesc s = some t ↔ canonicalField s = esc t := by
  rw [unesc_iff plain, canonicalField, ← String.toList_inj, String.toList_ofList]

theorem number_iff : number why s = .ok n ↔ canonicalNumber s = n.repr ∧ n ≤ maxNumber := by
  rw [number, need_iff, parseUnsigned_iff (by decide) (by decide), canonicalNumber, ← String.toList_inj,
    String.toList_ofList, Nat.toList_repr]

theorem readId_iff {kind : IdKind} {i : Id kind} : readId kind why s = .ok i ↔ s = i.asStr := by
  rw [readId, need_iff, ← Id.parse_iff]
  cases Id.parse kind s with
  | ok j => exact ⟨fun h => congrArg _ (Option.some.inj h), fun h => congrArg _ (Except.ok.inj h)⟩
  | error e => exact ⟨fun h => (by cases h), fun h => (by cases h)⟩

theorem parse_kind_iff {k : ResourceKind} : ResourceKind.parse s = some k ↔ s = k.asStr := by
  constructor
  · intro read
    unfold ResourceKind.parse at read
    split at read <;> cases read <;> rfl
  · rintro rfl
    cases k <;> rfl

theorem parse_disposition_iff {d : Disposition} : Disposition.parse s = some d ↔ s = d.asStr := by
  constructor
  · intro read
    unfold Disposition.parse at read
    split at read <;> cases read <;> rfl
  · rintro rfl
    cases d <;> rfl

theorem readKey_iff {kind name : String} {key : ResourceKey} (plain : Plain name) :
    readKey kind name = .ok key ↔ kind = key.kind.asStr ∧ canonicalField name = esc key.name := by
  rw [← parse_kind_iff, ← canonicalField_iff plain]
  constructor
  · intro read
    obtain ⟨k, first, read⟩ := bind_ok read
    obtain ⟨text, second, read⟩ := bind_ok read
    cases read
    exact ⟨need_ok first, need_ok second⟩
  · rintro ⟨first, second⟩
    rw [readKey, first, second]
    rfl

theorem readOutcome_iff {outcome message : String} {o : CleanupOutcome} (plain : Plain message) :
    readOutcome outcome message = .ok o ↔
      outcome = (cleanupFields o).1 ∧ canonicalMessage outcome message = (cleanupFields o).2 := by
  constructor
  · intro read
    have text : ∀ {m : String}, need "bad escape" (unesc message) = .ok m → canonicalField message = esc m :=
      fun read => (canonicalField_iff plain).mp (need_ok read)
    unfold readOutcome at read
    split at read
    · cases read
      exact ⟨rfl, rfl⟩
    · cases read
      exact ⟨rfl, rfl⟩
    · obtain ⟨m, back, rfl⟩ := map_ok read
      exact ⟨rfl, text back⟩
    · obtain ⟨m, back, rfl⟩ := map_ok read
      exact ⟨rfl, text back⟩
    · obtain ⟨m, back, rfl⟩ := map_ok read
      exact ⟨rfl, text back⟩
    · obtain ⟨m, back, rfl⟩ := map_ok read
      exact ⟨rfl, text back⟩
    · cases read
  · rintro ⟨rfl, same⟩
    cases o with
    | removed | alreadyAbsent => rfl
    | failed m | refused m =>
      have back : unesc message = some m := (canonicalField_iff plain).mpr same
      simp only [cleanupFields, readOutcome, back]
      rfl
    | conflict c m =>
      cases c <;>
      · have back : unesc message = some m := (canonicalField_iff plain).mpr same
        simp only [cleanupFields, conflictToken, readOutcome, back]
        rfl

/-! The four cases of `canonicalFields`. -/

theorem canonicalFields_intent {kind name app deployment disposition atMs : String} (head : f.headD "" = "intent")
    (tail : f.drop 1 = [kind, name, app, deployment, disposition, atMs]) :
    canonicalFields f =
      some ["intent", kind, canonicalField name, app, deployment, disposition, canonicalNumber atMs] := by
  unfold canonicalFields
  simp only [head, tail]

theorem canonicalFields_receipt {kind name deployment id atMs : String} (head : f.headD "" = "receipt")
    (tail : f.drop 1 = [kind, name, deployment, id, atMs]) :
    canonicalFields f =
      some ["receipt", kind, canonicalField name, deployment, canonicalField id, canonicalNumber atMs] := by
  unfold canonicalFields
  simp only [head, tail]

theorem canonicalFields_attempt {kind name deployment atMs : String} (head : f.headD "" = "attempt")
    (tail : f.drop 1 = [kind, name, deployment, atMs]) :
    canonicalFields f = some ["attempt", kind, canonicalField name, deployment, canonicalNumber atMs] := by
  unfold canonicalFields
  simp only [head, tail]

theorem canonicalFields_result {kind name deployment outcome message atMs : String} (head : f.headD "" = "result")
    (tail : f.drop 1 = [kind, name, deployment, outcome, message, atMs]) :
    canonicalFields f =
      some ["result", kind, canonicalField name, deployment, outcome, canonicalMessage outcome message,
        canonicalNumber atMs] := by
  unfold canonicalFields
  simp only [head, tail]

theorem canonicalFields_of_decode (plain : ∀ x ∈ f, Plain x) (read : decodeLedgerFields f = .ok r) :
    canonicalFields f = some (ledgerFields r) ∧ ledgerMs r ≤ maxNumber := by
  have inside : ∀ {x : String} {rest : List String}, f.drop 1 = rest → x ∈ rest → Plain x := fun same mem =>
    plain _ (List.mem_of_mem_drop (same ▸ mem))
  unfold decodeLedgerFields at read
  split at read
  next head tail =>
    obtain ⟨key, first, read⟩ := bind_ok read
    obtain ⟨app, second, read⟩ := bind_ok read
    obtain ⟨d, third, read⟩ := bind_ok read
    obtain ⟨disposition, fourth, read⟩ := bind_ok read
    obtain ⟨ms, last, read⟩ := bind_ok read
    cases read
    obtain ⟨kind, name⟩ := (readKey_iff (inside tail (by simp))).mp first
    obtain ⟨time, fits⟩ := number_iff.mp last
    rw [canonicalFields_intent head tail, kind, name, readId_iff.mp second, readId_iff.mp third, parse_disposition_iff.mp (need_ok fourth), time]
    exact ⟨rfl, fits⟩
  next head tail =>
    obtain ⟨key, first, read⟩ := bind_ok read
    obtain ⟨d, second, read⟩ := bind_ok read
    obtain ⟨id, third, read⟩ := bind_ok read
    obtain ⟨ms, last, read⟩ := bind_ok read
    cases read
    obtain ⟨kind, name⟩ := (readKey_iff (inside tail (by simp))).mp first
    obtain ⟨time, fits⟩ := number_iff.mp last
    have text := (canonicalField_iff (inside tail (by simp))).mp (need_ok third)
    rw [canonicalFields_receipt head tail, kind, name, readId_iff.mp second, text, time]
    exact ⟨rfl, fits⟩
  next head tail =>
    obtain ⟨key, first, read⟩ := bind_ok read
    obtain ⟨d, second, read⟩ := bind_ok read
    obtain ⟨ms, last, read⟩ := bind_ok read
    cases read
    obtain ⟨kind, name⟩ := (readKey_iff (inside tail (by simp))).mp first
    obtain ⟨time, fits⟩ := number_iff.mp last
    rw [canonicalFields_attempt head tail, kind, name, readId_iff.mp second, time]
    exact ⟨rfl, fits⟩
  next head tail =>
    obtain ⟨key, first, read⟩ := bind_ok read
    obtain ⟨d, second, read⟩ := bind_ok read
    obtain ⟨o, third, read⟩ := bind_ok read
    obtain ⟨ms, last, read⟩ := bind_ok read
    cases read
    obtain ⟨kind, name⟩ := (readKey_iff (inside tail (by simp))).mp first
    obtain ⟨time, fits⟩ := number_iff.mp last
    obtain ⟨outcome, message⟩ := (readOutcome_iff (inside tail (by simp))).mp third
    rw [canonicalFields_result head tail, message, kind, name, readId_iff.mp second, outcome, time]
    exact ⟨rfl, fits⟩
  · cases read

theorem decode_of_canonicalFields (plain : ∀ x ∈ f, Plain x) (fits : ledgerMs r ≤ maxNumber)
    (spelled : canonicalFields f = some (ledgerFields r)) : decodeLedgerFields f = .ok r := by
  have inside : ∀ {x : String} {rest : List String}, f.drop 1 = rest → x ∈ rest → Plain x := fun same mem =>
    plain _ (List.mem_of_mem_drop (same ▸ mem))
  have deployment : ∀ d : DeploymentId, readDeployment d.asStr = .ok d := fun d => readId_asStr
  unfold canonicalFields at spelled
  unfold decodeLedgerFields
  split at spelled
  next head tail =>
    cases r with
    | intent key app d disposition atMs =>
      simp only [ledgerFields, Option.some.injEq, List.cons.injEq, and_true, true_and] at spelled
      obtain ⟨kind, name, rfl, rfl, rfl, time⟩ := spelled
      have key := (readKey_iff (inside tail (by simp))).mpr ⟨kind, name⟩
      simp only [head, tail, key, readId_asStr, deployment, Disposition.parse_asStr, need_some, number_iff.mpr ⟨time, fits⟩]
      rfl
    | receipt _ _ _ _ | cleanupAttempt _ _ _ | cleanupResult _ _ _ _ => simp [ledgerFields] at spelled
  next head tail =>
    cases r with
    | receipt key d id atMs =>
      simp only [ledgerFields, Option.some.injEq, List.cons.injEq, and_true, true_and] at spelled
      obtain ⟨kind, name, rfl, text, time⟩ := spelled
      have key := (readKey_iff (inside tail (by simp))).mpr ⟨kind, name⟩
      have text := (canonicalField_iff (inside tail (by simp))).mpr text
      simp only [head, tail, key, deployment, text, need_some, number_iff.mpr ⟨time, fits⟩]
      rfl
    | intent _ _ _ _ _ | cleanupAttempt _ _ _ | cleanupResult _ _ _ _ => simp [ledgerFields] at spelled
  next head tail =>
    cases r with
    | cleanupAttempt key d atMs =>
      simp only [ledgerFields, Option.some.injEq, List.cons.injEq, and_true, true_and] at spelled
      obtain ⟨kind, name, rfl, time⟩ := spelled
      have key := (readKey_iff (inside tail (by simp))).mpr ⟨kind, name⟩
      simp only [head, tail, key, deployment, number_iff.mpr ⟨time, fits⟩]
      rfl
    | intent _ _ _ _ _ | receipt _ _ _ _ | cleanupResult _ _ _ _ => simp [ledgerFields] at spelled
  next head tail =>
    cases r with
    | cleanupResult key d o atMs =>
      simp only [ledgerFields, Option.some.injEq, List.cons.injEq, and_true, true_and] at spelled
      obtain ⟨kind, name, rfl, outcome, message, time⟩ := spelled
      have key := (readKey_iff (inside tail (by simp))).mpr ⟨kind, name⟩
      have o := (readOutcome_iff (inside tail (by simp))).mpr ⟨outcome, message⟩
      simp only [head, tail, key, deployment, o, number_iff.mpr ⟨time, fits⟩]
      rfl
    | intent _ _ _ _ _ | receipt _ _ _ _ | cleanupAttempt _ _ _ => simp [ledgerFields] at spelled
  · cases spelled

end

/-! ## Lines -/

/-- The line spells the record: eight characters that are its checksum as a hexadecimal number, a tab, and the
fields of the record, where a number may have a sign or zeros in front, a carriage return may stand unescaped, and
anything may stand for the message of an outcome that has none. -/
structure Spells (line : String) (r : LedgerRecord) : Prop where
  spelled : ∃ crc body, line = crc ++ (String.singleton '\t' ++ body) ∧ Free '\t' crc ∧ crc.utf8ByteSize = 8 ∧
    canonicalDigits (signless crc) = Nat.toDigits 16 (crc32 (utf8 body)).toNat ∧
    canonicalFields (fields '\t' body) = some (ledgerFields r)
  fits : ledgerMs r ≤ maxNumber

section

variable {crc body line : String} {r : LedgerRecord}

theorem checked_iff : checked crc body = .ok () ↔
    crc.utf8ByteSize = 8 ∧ canonicalDigits (signless crc) = Nat.toDigits 16 (crc32 (utf8 body)).toNat := by
  have bound : (crc32 (utf8 body)).toNat ≤ 0xFFFFFFFF := Nat.le_of_lt_succ (crc32 (utf8 body)).toNat_lt
  have read : parseUnsigned 16 0xFFFFFFFF crc = some (crc32 (utf8 body)).toNat ↔
      canonicalDigits (signless crc) = Nat.toDigits 16 (crc32 (utf8 body)).toNat :=
    (parseUnsigned_iff (by decide) (by decide)).trans (and_iff_left bound)
  rw [← read, checked]
  cases parseUnsigned 16 0xFFFFFFFF crc with
  | none => exact ⟨fun h => (by cases h), fun h => (by cases h.2)⟩
  | some want =>
    dsimp only
    split
    next wrong =>
      refine ⟨fun h => (by cases h), fun h => ?_⟩
      exact wrong.elim (fun size => absurd h.1 size) fun other => absurd (Option.some.inj h.2).symm other
    next right =>
      simp only [not_or, Decidable.not_not] at right
      exact ⟨fun _ => ⟨right.1, congrArg some right.2.symm⟩, fun _ => rfl⟩

theorem unframe_iff : unframe line = .ok (crc, body) ↔ line = crc ++ (String.singleton '\t' ++ body) ∧ Free '\t' crc := by
  rw [← splitOnce_iff, unframe]
  cases splitOnce '\t' line with
  | none => exact ⟨fun h => (by cases h), fun h => (by cases h)⟩
  | some parts => exact ⟨fun h => congrArg some (Except.ok.inj h), fun h => congrArg Except.ok (Option.some.inj h)⟩

theorem plain_fields (free : Free '\n' (crc ++ (String.singleton '\t' ++ body))) : ∀ f ∈ fields '\t' body, Plain f := by
  intro f mem
  refine ⟨fields_free mem, fun inside => free ?_⟩
  have chars : '\n' ∈ (joined '\t' (fields '\t' body)).toList := joined_mem mem inside
  rw [joined_fields] at chars
  simp [chars]

/-- What is read from a line is what the line spells. -/
theorem decodeLedger_iff (free : Free '\n' line) : decodeLedger line = .ok r ↔ Spells line r := by
  constructor
  · intro read
    obtain ⟨⟨crc, body⟩, parts, rest⟩ := bind_ok read
    obtain ⟨_, sum, inside⟩ := bind_ok rest
    obtain ⟨rfl, alone⟩ := unframe_iff.mp parts
    obtain ⟨size, digits⟩ := checked_iff.mp sum
    obtain ⟨spelled, fits⟩ := canonicalFields_of_decode (plain_fields free) inside
    exact ⟨⟨crc, body, rfl, alone, size, digits, spelled⟩, fits⟩
  · rintro ⟨⟨crc, body, rfl, alone, size, digits, spelled⟩, fits⟩
    rw [decodeLedger, unframe_iff.mpr ⟨rfl, alone⟩]
    simp only [bind, Except.bind, checked_iff.mpr ⟨size, digits⟩]
    exact decode_of_canonicalFields (plain_fields free) fits spelled

/-- The line of a record is cut at its tabs into the checksum and the fields. -/
theorem fields_encodeLedger :
    fields '\t' (encodeLedger r) = hexPadded 8 (crc32 (utf8 (joined '\t' (ledgerFields r)))).toNat :: ledgerFields r := by
  have plain : ∀ f ∈ hexPadded 8 (crc32 (utf8 (joined '\t' (ledgerFields r)))).toNat :: ledgerFields r, Free '\t' f := by
    intro f mem
    rcases List.mem_cons.mp mem with rfl | mem
    · exact hexPadded_free (by decide)
    · exact (plain_ledgerFields f mem).tab
  rw [← fields_joined plain (List.cons_ne_nil _ _)]
  have some : ledgerFields r ≠ [] := by cases r <;> simp [ledgerFields]
  obtain ⟨f, fs, same⟩ := List.exists_cons_of_ne_nil some
  rw [encodeLedger, frame, same, joined, joined, String.intercalate_cons_cons, String.append_assoc]

end

/-- Every ledger record is read back from its line, which is cut at its tabs into the checksum and the fields, and
a line is read as a record exactly if it spells it. -/
theorem ledger_lines :
    (∀ r, ledgerMs r ≤ maxNumber → decodeLedger (encodeLedger r) = .ok r) ∧
    (∀ r, Free '\n' (encodeLedger r) ∧ ∃ crc, fields '\t' (encodeLedger r) = crc :: ledgerFields r) ∧
    ∀ line, Free '\n' line → ∀ r, decodeLedger line = .ok r ↔ Spells line r :=
  ⟨fun _ => decodeLedger_encodeLedger, fun _ => ⟨frame_newline plain_ledgerFields, _, fields_encodeLedger⟩,
    fun _ free _ => decodeLedger_iff free⟩

def signedAttempt : LedgerRecord := .cleanupAttempt ⟨.image, "x"⟩ ⟨1#128⟩ 7

/-- The fields of a cleanup attempt, with a sign in front of its time. -/
def signedFields : List String := ["attempt", "image", "x", (⟨1#128⟩ : DeploymentId).asStr, "+7"]

/-- A line that is the encoding of no record is read as one. -/
theorem signed_time_is_read : ∃ line r, Free '\n' line ∧ decodeLedger line = .ok r ∧ ∀ r', line ≠ encodeLedger r' := by
  have plain : ∀ f ∈ signedFields, Plain f := by decide
  have spelled : canonicalFields signedFields = some (ledgerFields signedAttempt) := by decide
  refine ⟨frame (joined '\t' signedFields), signedAttempt, frame_newline plain, ?_, fun r' same => ?_⟩
  · rw [decodeLedger, unframe_frame]
    simp only [bind, Except.bind, checked_frame, fields_plain plain (List.cons_ne_nil _ _)]
    exact decode_of_canonicalFields plain (by decide) spelled
  · have parts := congrArg unframe same
    rw [encodeLedger, unframe_frame, unframe_frame] at parts
    have some : ledgerFields r' ≠ [] := by cases r' <;> simp [ledgerFields]
    have fs : signedFields = ledgerFields r' := by
      rw [← fields_plain plain (List.cons_ne_nil _ _), ← fields_plain plain_ledgerFields some]
      exact congrArg (fields '\t') (Prod.mk.inj (Except.ok.inj parts)).2
    cases r' with
    | cleanupAttempt key d atMs =>
      simp only [signedFields, ledgerFields, List.cons.injEq, and_true, true_and] at fs
      have free : Free '+' atMs.repr := repr_free (by decide)
      rw [← fs.2.2.2] at free
      exact free (by decide)
    | intent _ _ _ _ _ | receipt _ _ _ _ | cleanupResult _ _ _ _ => simp [signedFields, ledgerFields] at fs

end Harpoon.Journal
