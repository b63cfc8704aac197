import Harpoon.Journal.Ledger

/-!
# Ledger records and their lines

Every ledger record is read back from its line, whatever its texts.
-/

namespace Harpoon.Journal

open Deploy Wire

section

variable {s : String} {c : Char} {cs : List Char}

theorem escChar_cases (c : Char) : (∃ d, escChar c = ['\\', d] ∧ escaped d = some c ∧ d ≠ '\t' ∧ d ≠ '\n') ∨
    (escChar c = [c] ∧ c ≠ '\\' ∧ c ≠ '\t' ∧ c ≠ '\n') := by
  unfold escChar
  split
  · exact .inl ⟨'\\', by decide⟩
  · exact .inl ⟨'t', by decide⟩
  · exact .inl ⟨'n', by decide⟩
  · exact .inl ⟨'r', by decide⟩
  next backslash tab newline _ => exact .inr ⟨rfl, backslash, tab, newline⟩

theorem unescChars_plain (other : c ≠ '\\') :
    unescChars (c :: cs) = (unescChars cs).bind fun ds => some (c :: ds) := by
  rw [unescChars.eq_def]
  split
  next none => cases none
  next same => exact absurd (List.cons.inj same).1 other
  next same => exact absurd (List.cons.inj same).1 other
  next same =>
    cases same
    rfl

theorem unescChars_esc (cs : List Char) : unescChars (cs.flatMap escChar) = some cs := by
  induction cs with
  | nil => rfl
  | cons c cs ih =>
    rw [List.flatMap_cons]
    rcases escChar_cases c with ⟨d, code, back, _⟩ | ⟨code, other, _⟩
    · rw [code, List.cons_append, List.cons_append, List.nil_append, unescChars, back, ih]
      rfl
    · rw [code, List.cons_append, List.nil_append, unescChars_plain other, ih]
      rfl

theorem unesc_esc (s : String) : unesc (esc s) = some s := by
  rw [unesc, esc, String.toList_ofList, unescChars_esc]
  simp

theorem Plain.esc : Plain (esc s) := by
  have chars : ∀ c ∈ (Journal.esc s).toList, c ≠ '\t' ∧ c ≠ '\n' := by
    intro c mem
    rw [Journal.esc, String.toList_ofList] at mem
    obtain ⟨b, _, mem⟩ := List.mem_flatMap.mp mem
    rcases escChar_cases b with ⟨d, code, _, tab, newline⟩ | ⟨code, _, tab, newline⟩
    · rw [code] at mem
      rcases List.mem_cons.mp mem with rfl | mem
      · decide
      · cases List.mem_singleton.mp mem
        exact ⟨tab, newline⟩
    · rw [code] at mem
      cases List.mem_singleton.mp mem
      exact ⟨tab, newline⟩
  exact ⟨fun mem => (chars _ mem).1 rfl, fun mem => (chars _ mem).2 rfl⟩

end

/-! ## Records -/

/-- The time a record was made at. -/
def ledgerMs : LedgerRecord → Nat
  | .intent _ _ _ _ atMs | .receipt _ _ _ atMs | .cleanupAttempt _ _ atMs | .cleanupResult _ _ _ atMs => atMs

section

variable {r : LedgerRecord}

theorem readKey_texts (key : ResourceKey) : readKey key.kind.asStr (esc key.name) = .ok key := by
  have kind : ResourceKind.parse key.kind.asStr = some key.kind := by cases key.kind <;> rfl
  rw [readKey, kind, unesc_esc]
  rfl

theorem readOutcome_cleanupFields (o : CleanupOutcome) :
    readOutcome (cleanupFields o).1 (cleanupFields o).2 = .ok o := by
  cases o with
  | removed | alreadyAbsent => rfl
  | failed m | refused m => simp only [cleanupFields, readOutcome, unesc_esc]; rfl
  | conflict c m => cases c <;> simp only [cleanupFields, conflictToken, readOutcome, unesc_esc] <;> rfl

theorem Disposition.parse_asStr (d : Disposition) : Disposition.parse d.asStr = some d := by cases d <;> rfl

theorem decodeLedgerFields_ledgerFields (fits : ledgerMs r ≤ maxNumber) :
    decodeLedgerFields (ledgerFields r) = .ok r := by
  have deployment : ∀ d : DeploymentId, readDeployment d.asStr = .ok d := fun d => readId_asStr
  cases r with
  | intent key app d disposition atMs =>
    simp only [ledgerFields, decodeLedgerFields, List.headD, List.drop, readKey_texts, readId_asStr, deployment,
      Disposition.parse_asStr, need_some, number_repr (n := atMs) fits]
    rfl
  | receipt key d id atMs =>
    simp only [ledgerFields, decodeLedgerFields, List.headD, List.drop, readKey_texts, deployment, unesc_esc,
      need_some, number_repr (n := atMs) fits]
    rfl
  | cleanupAttempt key d atMs =>
    simp only [ledgerFields, decodeLedgerFields, List.headD, List.drop, readKey_texts, deployment,
      number_repr (n := atMs) fits]
    rfl
  | cleanupResult key d outcome atMs =>
    simp only [ledgerFields, decodeLedgerFields, List.headD, List.drop, readKey_texts, deployment,
      readOutcome_cleanupFields, number_repr (n := atMs) fits]
    rfl

/-- The fields that stand for a choice. -/
def ledgerWords : List String :=
  ["intent", "receipt", "attempt", "result", "removed", "absent", "failed", "refused", ""] ++
    [ResourceKind.image, .container, .portLease].map ResourceKind.asStr ++
    [Disposition.retain, .removeOnFailure, .removeAlways].map Disposition.asStr ++
    [ConflictCause.dockerRefused, .notExclusive].map conflictToken

def outcomeTexts : CleanupOutcome → List String
  | .removed | .alreadyAbsent => []
  | .failed m | .refused m | .conflict _ m => [m]

/-- The free texts of a record. -/
def ledgerTexts : LedgerRecord → List String
  | .intent key _ _ _ _ | .cleanupAttempt key _ _ => [key.name]
  | .receipt key _ id _ => [key.name, id]
  | .cleanupResult key _ outcome _ => key.name :: outcomeTexts outcome

/-- What holds of words, numbers, identifiers and escaped texts holds of every field. -/
theorem forall_ledgerFields {P : String → Prop} (words : ∀ w ∈ ledgerWords, P w)
    (ids : ∀ {kind : IdKind} (i : Id kind), P i.asStr) (numbers : ∀ n : Nat, P n.repr)
    (texts : ∀ t ∈ ledgerTexts r, P (esc t)) : ∀ f ∈ ledgerFields r, P f := by
  have kind : ∀ k : ResourceKind, P k.asStr := fun k => words _ (by cases k <;> decide)
  have disposition : ∀ d : Disposition, P d.asStr := fun d => words _ (by cases d <;> decide)
  have outcome : ∀ o : CleanupOutcome, (∀ t ∈ outcomeTexts o, P (esc t)) →
      P (cleanupFields o).1 ∧ P (cleanupFields o).2 := by
    intro o message
    cases o with
    | removed | alreadyAbsent => exact ⟨words _ (by decide), words _ (by decide)⟩
    | failed m | refused m => exact ⟨words _ (by simp [cleanupFields, ledgerWords]), message m List.mem_cons_self⟩
    | conflict c m => exact ⟨words _ (by cases c <;> simp [cleanupFields, ledgerWords]), message m List.mem_cons_self⟩
  cases r <;> simp only [ledgerFields, ledgerTexts, List.forall_mem_cons, List.not_mem_nil, false_implies,
    implies_true, and_true] at texts ⊢
  case intent key app d disp atMs =>
    exact ⟨words _ (by decide), kind _, texts, ids _, ids _, disposition _, numbers _⟩
  case receipt key d id atMs => exact ⟨words _ (by decide), kind _, texts.1, ids _, texts.2, numbers _⟩
  case cleanupAttempt key d atMs => exact ⟨words _ (by decide), kind _, texts, ids _, numbers _⟩
  case cleanupResult key d o atMs =>
    obtain ⟨name, message⟩ := texts
    exact ⟨words _ (by decide), kind _, name, ids _, (outcome o message).1, (outcome o message).2, numbers _⟩

/-- Each text stands in a field of its own. -/
theorem esc_ledgerFields {t : String} (mem : t ∈ ledgerTexts r) : esc t ∈ ledgerFields r := by
  cases r with
  | intent key app d disp atMs => cases List.mem_singleton.mp mem; simp [ledgerFields]
  | cleanupAttempt key d atMs => cases List.mem_singleton.mp mem; simp [ledgerFields]
  | receipt key d id atMs =>
    simp only [ledgerTexts, List.mem_cons, List.not_mem_nil, or_false] at mem
    rcases mem with rfl | rfl <;> simp [ledgerFields]
  | cleanupResult key d outcome atMs =>
    rcases List.mem_cons.mp mem with rfl | message
    · simp [ledgerFields]
    · have field : (cleanupFields outcome).2 = esc t := by
        cases outcome with
        | removed | alreadyAbsent => cases message
        | failed m | refused m | conflict _ m => cases List.mem_singleton.mp message; rfl
      simp [ledgerFields, field]

theorem plain_ledgerFields : ∀ f ∈ ledgerFields r, Plain f :=
  forall_ledgerFields (by decide) (fun _ => .asStr) (fun _ => .repr) fun _ _ => .esc

theorem decodeLedger_encodeLedger (fits : ledgerMs r ≤ maxNumber) : decodeLedger (encodeLedger r) = .ok r := by
  have some : ledgerFields r ≠ [] := by cases r <;> simp [ledgerFields]
  rw [decodeLedger, encodeLedger, unframe_frame]
  simp only [bind, Except.bind, checked_frame, fields_plain plain_ledgerFields some]
  exact decodeLedgerFields_ledgerFields fits

end

end Harpoon.Journal
