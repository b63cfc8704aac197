import Harpoon.Journal.Control

/-!
# Control records and their lines

A control record is read back from its fields when its texts are well formed and its numbers fit, with
one exception: a delivery id may be `-`, which a field of its own reads as "none".
-/

namespace Harpoon.Control

open Deploy Wire Journal

/-! ## Tokens -/

/-- The texts that an event's identities are made of. -/
structure Token (extra : List Char) (v : String) : Prop where
  some : v ≠ ""
  chars : ∀ c ∈ v.toList, tokenChar extra c = true

section

variable {what v : String} {extra : List Char} {sep : Char}

theorem token_ok (accepted : token what v extra = .ok ()) : Token extra v := by
  unfold token at accepted
  split at accepted
  · cases accepted
  next sized =>
    refine ⟨fun empty => sized (.inl (by rw [empty]; rfl)), fun c mem => ?_⟩
    split at accepted
    · cases accepted
    next none =>
      have kept := List.find?_eq_none.mp none c mem
      simpa using kept

theorem Token.free (t : Token extra v) (foreign : tokenChar extra sep = false) : Free sep v := by
  intro mem
  cases foreign.symm.trans (t.chars sep mem)

theorem delivery_token (accepted : checkDelivery v = .ok ()) : Token [':'] v := token_ok accepted

theorem revision_token (accepted : checkRevision v = .ok ()) : Token ['/'] v := token_ok accepted

theorem source_token (accepted : checkSource v = .ok ()) : Token [] v := by
  unfold checkSource at accepted
  cases checked : token "an event source" v [] with
  | error why => rw [checked] at accepted; cases accepted
  | ok _ => exact token_ok checked

theorem Token.plain (t : Token extra v) (foreign : tokenChar extra '\t' = false ∧ tokenChar extra '\n' = false) :
    Plain v := ⟨t.free foreign.1, t.free foreign.2⟩

theorem plain_delivery (accepted : checkDelivery v = .ok ()) : Plain v :=
  (delivery_token accepted).plain (by decide)

end

/-! ## Lists in one field -/

section

variable {v : List String}

/-- A list is read back from its field, unless its only entry is the text of the empty list. -/
theorem csvList_csv (free : ∀ f ∈ v, Free ',' f) (real : v ≠ ["-"]) : csvList (csv v) = v := by
  unfold csv
  split
  next empty => rw [empty]; rfl
  next some =>
    have back := fields_joined free some
    have other : joined ',' v ≠ "-" := by
      intro dash
      rw [dash] at back
      exact real (back.symm.trans (by decide))
    rw [csvList, if_neg other, back]

theorem plain_csv (plain : ∀ f ∈ v, Plain f) : Plain (csv v) := by
  unfold csv
  split
  · decide
  · exact .joined (by decide) plain

end

/-! ## Records that are read back -/

/-- The list is not `-` alone. -/
abbrev Real (v : List String) : Prop := v ≠ ["-"]

theorem Real.of_ne {v : List String} (other : ∀ f ∈ v, f ≠ "-") : Real v :=
  fun dash => other "-" (dash ▸ List.mem_singleton.mpr rfl) rfl

/-- What a record must satisfy to be read back from its line. -/
def ReadsBack : ControlRecord → Prop
  | .pause p => p.atMs ≤ maxNumber
  | .event e => e.receivedMs ≤ maxNumber ∧ checkDelivery e.delivery = .ok () ∧ checkSource e.source = .ok () ∧
      checkRevision e.revision = .ok ()
  | .exec x => x.atMs ≤ maxNumber ∧ checkDelivery x.delivery = .ok () ∧
      (∀ d ∈ x.superseded, checkDelivery d = .ok ()) ∧ Real x.superseded
  | .resume x => x.atMs ≤ maxNumber ∧ (∀ r, x.choice = .revision r → checkRevision r = .ok ()) ∧
      (∀ d, x.selected = some d → checkDelivery d = .ok () ∧ d ≠ "-") ∧
      (∀ d ∈ x.dismissed, checkDelivery d = .ok ()) ∧ Real x.dismissed ∧
      ∀ p ∈ x.superseded, checkDelivery p.1 = .ok ()

section

variable {p : PauseRec} {e : EventRec} {x : ExecRec} {y : ResumeRec} {r : ControlRecord}

theorem PauseKind.parse_asStr (k : PauseKind) : PauseKind.parse k.asStr = some k := by cases k <;> rfl

theorem SupersededWhy.parse_asStr (w : SupersededWhy) : SupersededWhy.parse w.asStr = some w := by cases w <;> rfl

theorem parseOutcome_outcomeStr (o : ExecOutcome) : parseOutcome (outcomeStr o) = some o := by cases o <;> rfl

theorem decode_pauseFields (fits : p.atMs ≤ maxNumber) : decode (pauseFields p) = .ok (.pause p) := by
  have read : decodePause ((pauseFields p).drop 2) = .ok p := by
    simp only [pauseFields, List.drop, decodePause, readApp, readDeployment, readId_asStr, PauseKind.parse_asStr,
      unhexText_hexText, number_repr fits, need_some]
    rfl
  have kind : decode (pauseFields p) = .pause <$> decodePause ((pauseFields p).drop 2) := rfl
  rw [kind, read]
  rfl

theorem decode_eventFields (back : ReadsBack (.event e)) : decode (eventFields e) = .ok (.event e) := by
  obtain ⟨fits, delivery, source, revision⟩ := back
  have read : decodeEvent ((eventFields e).drop 2) = .ok e := by
    simp only [eventFields, List.drop, decodeEvent, readApp, readId_asStr, number_repr fits, delivery, source,
      revision]
    rfl
  have kind : decode (eventFields e) = .event <$> decodeEvent ((eventFields e).drop 2) := rfl
  rw [kind, read]
  rfl

theorem decode_execFields (back : ReadsBack (.exec x)) : decode (execFields x) = .ok (.exec x) := by
  obtain ⟨fits, delivery, superseded, real⟩ := back
  have list := csvList_csv (fun d mem => (delivery_token (superseded d mem)).free (by decide)) real
  have executed : decodeExecuted ((x.deployment.map Id.asStr).getD "-") = .ok x.deployment := by
    cases x.deployment with
    | none => rfl
    | some d =>
      rw [Option.map_some, Option.getD_some, decodeExecuted, if_neg Id.asStr_ne_dash, readDeployment, readId_asStr]
      rfl
  have read : decodeExec ((execFields x).drop 2) = .ok x := by
    simp only [execFields, List.drop, decodeExec, readApp, readId_asStr, number_repr fits, delivery,
      parseOutcome_outcomeStr, list, forM_ok superseded, executed, unhexText_hexText, need_some]
    rfl
  have kind : decode (execFields x) = .exec <$> decodeExec ((execFields x).drop 2) := rfl
  rw [kind, read]
  rfl

theorem decodeChoice_choiceFields {c : Choice} (revision : ∀ r, c = .revision r → checkRevision r = .ok ()) :
    decodeChoice (choiceFields c).1 (choiceFields c).2 = .ok c := by
  cases c with
  | dismiss => rfl
  | newest => rfl
  | revision r =>
    simp only [decodeChoice, choiceFields, revision r rfl]
    rfl

theorem decodeSelected_getD {o : Option String} (selected : ∀ d, o = some d → checkDelivery d = .ok () ∧ d ≠ "-") :
    decodeSelected (o.getD "-") = .ok o := by
  cases o with
  | none => rfl
  | some d =>
    obtain ⟨accepted, other⟩ := selected d rfl
    rw [Option.getD_some, decodeSelected, if_neg other, accepted]
    rfl

theorem decodeSuperseded_entry {p : String × SupersededWhy} (accepted : checkDelivery p.1 = .ok ()) :
    decodeSuperseded (supersededEntry p) = .ok p := by
  rw [decodeSuperseded, supersededEntry, splitOnce_append ((delivery_token accepted).free (by decide))]
  simp only [need_some, bind, Except.bind, SupersededWhy.parse_asStr]
  rfl

theorem free_supersededEntry {p : String × SupersededWhy} {sep : Char} (accepted : checkDelivery p.1 = .ok ())
    (foreign : sep ∈ ['\t', '\n', ',']) : Free sep (supersededEntry p) := by
  have letters : ∀ sep ∈ ['\t', '\n', ','], tokenChar [':'] sep = false ∧ sep ≠ '=' ∧ sep ∉ p.2.asStr.toList := by
    cases p.2 <;> exact forall_mem_of_all (by decide)
  obtain ⟨token, equals, why⟩ := letters sep foreign
  intro mem
  rw [supersededEntry, String.toList_append, String.toList_append, String.toList_singleton] at mem
  rcases List.mem_append.mp mem with mem | mem
  · exact (delivery_token accepted).free token mem
  · rcases List.mem_cons.mp mem with same | mem
    · exact equals same
    · exact why mem

/-- An entry with a reason is never the text of the empty list. -/
theorem supersededEntry_ne_dash {p : String × SupersededWhy} : supersededEntry p ≠ "-" := by
  intro text
  have equals : '=' ∈ (supersededEntry p).toList := by simp [supersededEntry]
  rw [text] at equals
  exact absurd equals (by decide)

theorem decode_resumeFields (back : ReadsBack (.resume y)) : decode (resumeFields y) = .ok (.resume y) := by
  obtain ⟨fits, revision, selected, dismissed, real, superseded⟩ := back
  have dropped := csvList_csv (fun d mem => (delivery_token (dismissed d mem)).free (by decide)) real
  have replaced : csvList (csv (y.superseded.map supersededEntry)) = y.superseded.map supersededEntry := by
    refine csvList_csv (fun f mem => ?_) (Real.of_ne fun f mem => ?_)
    · obtain ⟨p, inside, rfl⟩ := List.mem_map.mp mem
      exact free_supersededEntry (superseded p inside) (by decide)
    · obtain ⟨p, _, rfl⟩ := List.mem_map.mp mem
      exact supersededEntry_ne_dash
  have cleared : csvList (csv (y.cleared.map Id.asStr)) = y.cleared.map Id.asStr := by
    refine csvList_csv (fun f mem => ?_) (Real.of_ne fun f mem => ?_)
    · obtain ⟨i, _, rfl⟩ := List.mem_map.mp mem
      exact Id.asStr_free (by decide)
    · obtain ⟨i, _, rfl⟩ := List.mem_map.mp mem
      exact Id.asStr_ne_dash
  have entries : (y.superseded.map supersededEntry).mapM decodeSuperseded = .ok y.superseded :=
    mapM_map_ok fun p mem => decodeSuperseded_entry (superseded p mem)
  have origins : (y.cleared.map Id.asStr).mapM readDeployment = .ok y.cleared :=
    mapM_map_ok fun i _ => readId_asStr
  have checked : (y.dismissed ++ y.superseded.map (·.1)).forM checkDelivery = .ok () := by
    refine forM_ok fun d mem => ?_
    rcases List.mem_append.mp mem with mem | mem
    · exact dismissed d mem
    · obtain ⟨p, inside, rfl⟩ := List.mem_map.mp mem
      exact superseded p inside
  have read : decodeResume ((resumeFields y).drop 2) = .ok y := by
    simp only [resumeFields, List.drop, decodeResume, decodeChoice_choiceFields revision,
      decodeSelected_getD selected, dropped, replaced, cleared, bind, Except.bind, entries, origins, checked,
      readApp, readId_asStr, number_repr fits]
    rfl
  have kind : decode (resumeFields y) = .resume <$> decodeResume ((resumeFields y).drop 2) := rfl
  rw [kind, read]
  rfl

/-- A record is read back from its fields. -/
theorem decode_recordFields (back : ReadsBack r) : decode (recordFields r) = .ok r := by
  cases r with
  | pause p => exact decode_pauseFields back
  | event e => exact decode_eventFields back
  | resume y => exact decode_resumeFields back
  | exec x => exact decode_execFields back

/-- Every field of such a record is plain. -/
theorem plain_recordFields (back : ReadsBack r) : ∀ f ∈ recordFields r, Plain f := by
  cases r with
  | pause p =>
    have kind : Plain p.kind.asStr := by cases p.kind <;> decide
    simp only [recordFields, pauseFields, List.forall_mem_cons, List.not_mem_nil, false_implies, implies_true,
      and_true]
    exact ⟨by decide, by decide, .asStr, .asStr, kind, .repr, .hexText⟩
  | event e =>
    obtain ⟨_, delivery, source, revision⟩ := back
    simp only [recordFields, eventFields, List.forall_mem_cons, List.not_mem_nil, false_implies, implies_true,
      and_true]
    exact ⟨by decide, by decide, .asStr, plain_delivery delivery,
      (source_token source).plain (by decide), (revision_token revision).plain (by decide), .repr⟩
  | exec x =>
    obtain ⟨_, delivery, superseded, _⟩ := back
    have outcome : Plain (outcomeStr x.outcome) := by cases x.outcome <;> decide
    have deployment : Plain ((x.deployment.map Id.asStr).getD "-") := by
      cases x.deployment with
      | none => decide
      | some d => exact .asStr
    simp only [recordFields, execFields, List.forall_mem_cons, List.not_mem_nil, false_implies, implies_true,
      and_true]
    exact ⟨by decide, by decide, .asStr, plain_delivery delivery, outcome, deployment, .hexText,
      plain_csv fun d mem => plain_delivery (superseded d mem), .repr⟩
  | resume y =>
    obtain ⟨_, revision, selected, dismissed, _, superseded⟩ := back
    have choice : Plain (choiceFields y.choice).1 ∧ Plain (choiceFields y.choice).2 := by
      cases chosen : y.choice with
      | dismiss | newest => decide
      | revision r =>
        refine ⟨?_, (revision_token (revision r chosen)).plain (by decide)⟩
        show Plain "revision"
        decide
    have picked : Plain (y.selected.getD "-") := by
      cases chosen : y.selected with
      | none => decide
      | some d => exact plain_delivery (selected d chosen).1
    simp only [recordFields, resumeFields, List.forall_mem_cons, List.not_mem_nil, false_implies, implies_true,
      and_true]
    refine ⟨by decide, by decide, .asStr, .repr, choice.1, choice.2, picked,
      plain_csv fun d mem => plain_delivery (dismissed d mem), plain_csv fun f mem => ?_, plain_csv fun f mem => ?_⟩
    · obtain ⟨p, inside, rfl⟩ := List.mem_map.mp mem
      exact ⟨free_supersededEntry (superseded p inside) (by decide),
        free_supersededEntry (superseded p inside) (by decide)⟩
    · obtain ⟨i, _, rfl⟩ := List.mem_map.mp mem
      exact .asStr

end

end Harpoon.Control
