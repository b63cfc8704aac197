import Harpoon.Cli.JournalUpgrade
import Harpoon.Journal.Sqlite

/-!
# Which rows look like removals

The upgrade takes a row for a removal when the word of a removal stands anywhere in it. Besides in a removal, it can stand in what a
row has as it is, or with escapes: names, labels, failures and notes. Whatever is written in hexadecimal does not matter.
-/

namespace Harpoon.Journal

open Cli.JournalUpgrade (JournalFileFacts checkFacts)
open Deploy Wire
open Git (containsText occurs)

/-- Does the word of a removal stand in the text? -/
def mentions (s : String) : Bool := containsText "gitdrop" s

/-! ## Parts of a text -/

section

variable {p as bs : List Char} {c : Char} {s t : String} {fs : List String}

theorem isPrefixOf_stop (free : c ∉ p) : p.isPrefixOf (as ++ c :: bs) = p.isPrefixOf as := by
  induction p generalizing as with
  | nil => rfl
  | cons x p ih =>
    have other : (x == c) = false := beq_eq_false_iff_ne.mpr fun same => free (same ▸ List.mem_cons_self)
    cases as with
    | nil =>
      show (x == c && _) = false
      rw [other, Bool.false_and]
    | cons a as =>
      show (x == a && p.isPrefixOf (as ++ c :: bs)) = (x == a && p.isPrefixOf as)
      rw [ih fun mem => free (List.mem_cons_of_mem _ mem)]

/-- A character that is not of the word stands between two texts. -/
theorem occurs_apart (free : c ∉ p) (some_ : p ≠ []) : occurs p (as ++ c :: bs) = (occurs p as || occurs p bs) := by
  obtain ⟨x, p, rfl⟩ := List.exists_cons_of_ne_nil some_
  induction as with
  | nil =>
    have other : (x == c) = false := beq_eq_false_iff_ne.mpr fun same => free (same ▸ List.mem_cons_self)
    show (x == c && _ || occurs (x :: p) bs) = (false || occurs (x :: p) bs)
    rw [other, Bool.false_and]
  | cons a as ih =>
    have same : (x :: p).isPrefixOf (a :: as ++ c :: bs) = (x :: p).isPrefixOf (a :: as) := isPrefixOf_stop free
    show ((x :: p).isPrefixOf (a :: as ++ c :: bs) || occurs (x :: p) (as ++ c :: bs)) = _
    rw [same, ih, ← Bool.or_assoc]
    rfl

/-- A text without one of its letters does not have the word. -/
theorem occurs_missing (inside : c ∈ p) (free : c ∉ as) : occurs p as = false := by
  induction as with
  | nil =>
    cases p with
    | nil => cases inside
    | cons => rfl
  | cons a as ih =>
    rw [occurs, ih fun mem => free (List.mem_cons_of_mem _ mem), Bool.or_false]
    cases begins : p.isPrefixOf (a :: as) with
    | false => rfl
    | true => exact absurd ((List.isPrefixOf_iff_prefix.mp begins).subset inside) free

theorem mentions_missing (free : Free 'g' s) : mentions s = false := occurs_missing (by decide) free

theorem mentions_apart (sep : Char) (free : sep ∉ "gitdrop".toList) :
    mentions (s ++ (String.singleton sep ++ t)) = (mentions s || mentions t) := by
  have chars : (s ++ (String.singleton sep ++ t)).toList = s.toList ++ sep :: t.toList := by simp
  rw [mentions, containsText, chars, occurs_apart free (by decide)]
  rfl

theorem mentions_after {head : String} (kind : String) (sep : Char) (is : head = kind ++ String.singleton sep)
    (free : sep ∉ "gitdrop".toList)
    (quiet : mentions kind = false) : mentions (head ++ t) = mentions t := by
  rw [is, String.append_assoc, mentions_apart sep free, quiet, Bool.false_or]

theorem mentions_joined (sep : Char) (free : sep ∉ "gitdrop".toList) : mentions (joined sep fs) = fs.any mentions := by
  induction fs with
  | nil => rfl
  | cons f fs ih =>
    cases fs with
    | nil =>
      rw [joined, String.intercalate_singleton, List.any_cons, List.any_nil, Bool.or_false]
    | cons g fs =>
      have split : joined sep (f :: g :: fs) = f ++ (String.singleton sep ++ joined sep (g :: fs)) := by
        rw [joined, String.intercalate_cons_cons, String.append_assoc]
        rfl
      rw [split, mentions_apart sep free, ih]
      rfl

@[simp] theorem mentions_hexText : mentions (hexText s) = false := mentions_missing (hexText_free (by decide) s)

@[simp] theorem mentions_repr {n : Nat} : mentions n.repr = false := mentions_missing (repr_free (by decide))

@[simp] theorem mentions_asStr {kind : IdKind} {i : Id kind} : mentions i.asStr = false := by
  refine mentions_missing fun mem => ?_
  rcases Id.mem_asStr mem with mem | mem
  · revert mem
    cases kind <;> decide
  · exact absurd mem (by decide)

theorem escChar_word (c : Char) : escChar c = [c] ∨ ∃ l, escChar c = ['\\', l] ∧ l ≠ 'g' ∧ c ∉ "gitdrop".toList := by
  unfold escChar
  split
  · exact .inr ⟨_, rfl, by decide, by decide⟩
  · exact .inr ⟨_, rfl, by decide, by decide⟩
  · exact .inr ⟨_, rfl, by decide, by decide⟩
  · exact .inr ⟨_, rfl, by decide, by decide⟩
  · exact .inl rfl

theorem occurs_escaped (cs as : List Char) :
    occurs "gitdrop".toList (as ++ cs.flatMap escChar) = occurs "gitdrop".toList (as ++ cs) := by
  induction cs generalizing as with
  | nil => rfl
  | cons c cs ih =>
    rw [List.flatMap_cons]
    rcases escChar_word c with same | ⟨l, code, letter, raw⟩
    · have plain := ih (as ++ [c])
      rw [List.append_assoc, List.append_assoc] at plain
      rw [same]
      exact plain
    · have other : ('g' == l) = false := beq_eq_false_iff_ne.mpr fun is => letter is.symm
      have skip : occurs "gitdrop".toList (l :: cs.flatMap escChar) = occurs "gitdrop".toList (cs.flatMap escChar) := by
        show ('g' == l && _ || occurs "gitdrop".toList (cs.flatMap escChar)) = _
        rw [other, Bool.false_and, Bool.false_or]
      have rest : occurs "gitdrop".toList (cs.flatMap escChar) = occurs "gitdrop".toList cs := ih []
      rw [code, List.cons_append, List.singleton_append, occurs_apart (by decide) (by decide), occurs_apart raw (by decide),
        skip, rest]

/-- An escape neither makes nor breaks the word. -/
@[simp] theorem mentions_esc : mentions (esc s) = mentions s := by
  have chars : (esc s).toList = [] ++ s.toList.flatMap escChar := String.toList_ofList
  rw [mentions, containsText, chars, occurs_escaped]
  rfl

end

/-! ## What a row has in the clear -/

namespace AnyRecord

def clearOutcome : CleanupOutcome → List String
  | .removed | .alreadyAbsent => []
  | .failed m | .refused m | .conflict _ m => [m]

def clearLedger : LedgerRecord → List String
  | .intent key _ _ _ _ | .cleanupAttempt key _ _ => [key.name]
  | .receipt key _ id _ => [key.name, id]
  | .cleanupResult key _ outcome _ => key.name :: clearOutcome outcome

def clearChoice : Control.Choice → List String
  | .dismiss | .newest => []
  | .revision r => [r]

def clearControl : Control.ControlRecord → List String
  | .pause _ => []
  | .event e => [e.delivery, e.source, e.revision]
  | .exec x => x.delivery :: x.superseded
  | .resume x => clearChoice x.choice ++ (x.selected.toList ++ (x.dismissed ++ x.superseded.map (·.1)))

/-- The scope of everything has no name in its slug. -/
def clearLevel (id : String) : Config.Level → List String
  | .global => []
  | .project | .application => [id]

def clearScope (s : Config.Scope) : List String := clearLevel s.id s.level ++ s.env.toList

def clearValue : Config.Value → List String
  | .config _ => []
  | .secret r => [r.id]

def clearSetting : Config.Setting → List String
  | .set _ value => clearValue value
  | .unset => []

def clearEntry (e : Config.Entry) : List String := e.name :: ((e.source.map clearScope).getD [] ++ clearValue e.value)

def clearConfig : Config.ConfigRecord → List String
  | .definition d => clearScope d.scope ++ d.name :: clearSetting d.setting
  | .secretSaved x => [x.id]
  | .snapshot x => x.project.toList ++ (x.environment.toList ++ x.entries.flatMap clearEntry)

def clearGit : Git.GitRecord → List String
  | .repo x => [x.name]
  | .removed x => [x.name]
  | .seen s => [s.repo, s.commit]
  | .source s => [s.repo, s.commit, s.trigger] ++ s.delivery.toList

/-- The texts that the row has as they are, or with escapes. -/
def clear : AnyRecord → List String
  | .snapshot d => (d.failure.map Failure.message).toList ++ Step.order.map fun s => (d.step s).note
  | .ledger r => clearLedger r
  | .control r => clearControl r
  | .config r => clearConfig r
  | .git r => clearGit r
  | .stepLog _ => []

end AnyRecord

/-! ## What the word can stand in -/

theorem any_quiet {f : String} {fs : List String} (quiet : mentions f = false) : (f :: fs).any mentions = fs.any mentions := by
  rw [List.any_cons, quiet, Bool.false_or]

theorem mentions_getD {o : Option String} {word : String} (quiet : mentions word = false) :
    mentions (o.getD word) = o.toList.any mentions := by
  cases o with
  | none => exact quiet
  | some s => exact (Bool.or_false _).symm

/-- An optional text that never mentions a removal. -/
theorem quiet_getD {α : Type} {f : α → String} {o : Option α} {word : String} (quiet : mentions word = false)
    (each : ∀ a, mentions (f a) = false) : mentions ((o.map f).getD word) = false := by
  cases o with
  | none => exact quiet
  | some a => exact each a

@[simp] theorem mentions_optStr {o : Option Nat} : mentions (optStr o) = false := quiet_getD (by decide) fun _ => mentions_repr

@[simp] theorem mentions_idStr {kind : IdKind} {o : Option (Id kind)} : mentions (idStr o) = false :=
  quiet_getD (by decide) fun _ => mentions_asStr

@[simp] theorem mentions_flagStr {b : Bool} : mentions (flagStr b) = false := by cases b <;> decide

@[simp] theorem mentions_opt {o : Option String} : mentions (Git.opt o) = false :=
  quiet_getD (by decide) fun _ => mentions_hexText

theorem mentions_csv {fs : List String} : mentions (Control.csv fs) = fs.any mentions := by
  rw [Control.csv]
  split
  · next none_ => rw [none_]; decide
  · exact mentions_joined ',' (by decide)

/-! ## Family by family -/

theorem mentions_keyed {key value : String} (quiet : mentions key = false) :
    mentions (ReleaseConfig.keyed key value) = mentions value := by
  rw [ReleaseConfig.keyed, mentions_apart '=' (by decide), quiet, Bool.false_or]

theorem mentions_signedText (i : Int) : mentions (signedText i) = false := by
  cases i with
  | ofNat n => exact mentions_repr
  | negSucc n =>
    refine mentions_missing fun mem => ?_
    rw [signedText, String.toList_append] at mem
    rcases List.mem_append.mp mem with mem | mem
    · exact absurd mem (by decide)
    · exact repr_free (by decide) mem

theorem mentions_entries {α : Type} (f : α → String) (g : α → String) (xs : List α) :
    mentions (joined ',' (xs.map fun x => ReleaseConfig.entry (f x) (g x))) = false := by
  rw [mentions_joined ',' (by decide), List.any_map, List.any_eq_false]
  exact fun x _ => by simp [ReleaseConfig.entry]

/-- The pinned configuration has its texts in hexadecimal. -/
theorem mentions_release (c : ReleaseConfig) : mentions c.encode = false := by
  have expected : mentions (ReleaseConfig.expectStr c.health.expect) = false := by cases c.health.expect <;> decide
  have base : c.baseParts.any mentions = false := by
    simp (disch := decide) [ReleaseConfig.baseParts, mentions_keyed, mentions_signedText, expected]
  have env : mentions c.envPart = false := (mentions_keyed (by decide)).trans (mentions_entries _ _ _)
  have sec : mentions c.secPart = false := (mentions_keyed (by decide)).trans (mentions_entries _ _ _)
  have snap : mentions (ReleaseConfig.keyed "snap" ((c.snapshot.map hexText).getD "")) = false :=
    (mentions_keyed (by decide)).trans (quiet_getD (by decide) fun _ => mentions_hexText)
  have build : mentions (ReleaseConfig.keyed "build" ((c.build.map hexText).getD "")) = false :=
    (mentions_keyed (by decide)).trans (quiet_getD (by decide) fun _ => mentions_hexText)
  rw [ReleaseConfig.encode, mentions_joined ';' (by decide), ReleaseConfig.parts]
  split
  · split
    · rw [any_quiet (by decide), base]
    · rw [any_quiet (by decide), List.any_append, base, any_quiet env]
      rfl
  · rw [any_quiet (by decide), List.any_append, base, any_quiet env, any_quiet sec, any_quiet snap, any_quiet build]
    rfl

theorem steps_mention (note : Deploy.Step → String) (fields : Deploy.Step → List String) (steps : List Deploy.Step)
    (each : ∀ s, (fields s).any mentions = mentions (note s)) :
    (steps.flatMap fields).any mentions = (steps.map note).any mentions := by
  rw [List.any_flatMap, List.any_map]
  exact List.any_congr rfl each

theorem stepFields_mention (r : StepRecord) : (stepFields r).any mentions = mentions r.note := by
  have status : mentions (stepStatusStr r.status) = false := by cases r.status <;> decide
  simp [stepFields, status]

theorem cutoverFields_quiet (c : CutoverState) : (cutoverFields c).any mentions = false := by
  cases c with
  | notStarted | notRequired => decide
  | begun | confirmed | failed => rw [cutoverFields, any_quiet (by decide), any_quiet mentions_repr, List.any_nil]

theorem failureFields_mention (o : Option Failure) :
    (failureFields o).any mentions = (o.map Failure.message).toList.any mentions := by
  cases o with
  | none => decide
  | some x =>
    have step : mentions (stepStr x.step) = false := by cases x.step <;> decide
    have kind : mentions (failureKindStr x.kind) = false := by cases x.kind <;> decide
    rw [failureFields, any_quiet (by decide), any_quiet step, any_quiet kind, List.any_cons, any_quiet mentions_flagStr,
      mentions_esc]
    rfl

theorem outcomeFields_quiet (o : RecoveryOutcome) :
    mentions (outcomeFields o).1 = false ∧ mentions (outcomeFields o).2 = false := by
  cases o with
  | inProgress | restored | restoredUnverified => decide
  | restoreFailed r | notAttempted r => cases r <;> decide

theorem recoveryFields_quiet (o : Option Recovery) : (recoveryFields o).any mentions = false := by
  cases o with
  | none => decide
  | some r =>
    obtain ⟨first, second⟩ := outcomeFields_quiet r.outcome
    rw [recoveryFields, any_quiet (by decide), any_quiet first, any_quiet second]
    simp

theorem interruptionFields_quiet (o : Option Interruption) : (interruptionFields o).any mentions = false := by
  cases o with
  | none => decide
  | some i =>
    rw [interruptionFields, any_quiet (by decide)]
    simp

theorem trailingFields_quiet (d : Deployment) : (trailingFields d).any mentions = false := by
  have pinned : mentions ((d.pinned.map ReleaseConfig.encode).getD "-") = false := quiet_getD (by decide) mentions_release
  have rollback : (d.rollbackTo.map Id.asStr).toList.any mentions = false := by cases d.rollbackTo <;> simp
  rw [trailingFields, List.any_append, List.any_append, rollback]
  split <;> split <;> simp [pinned]

theorem snapshot_mentions (d : Deployment) : (snapshotFields d).any mentions = (AnyRecord.snapshot d).clear.any mentions := by
  have trigger : mentions (triggerStr d.trigger) = false := by cases d.trigger <;> decide
  have status : mentions (statusStr d.status) = false := by cases d.status <;> decide
  have start : [d.id.asStr, d.applicationId.asStr, triggerStr d.trigger, statusStr d.status, d.createdMs.repr,
      optStr d.startedMs, optStr d.finishedMs].any mentions = false := by simp [trigger, status]
  have release : [idStr d.release].any mentions = false := by simp
  rw [snapshotFields, any_quiet (by decide), any_quiet (by decide), fixedFields, AnyRecord.clear]
  simp only [List.any_append, start, cutoverFields_quiet, failureFields_mention, recoveryFields_quiet, interruptionFields_quiet,
    release, trailingFields_quiet, Bool.false_or, Bool.or_false]
  rw [steps_mention (fun s => (d.step s).note) (fun s => stepFields (d.step s)) Step.order fun s => stepFields_mention (d.step s)]

theorem cleanupFields_mention (o : CleanupOutcome) : mentions (cleanupFields o).1 = false ∧
    mentions (cleanupFields o).2 = (AnyRecord.clearOutcome o).any mentions := by
  have message : ∀ m, mentions (esc m) = [m].any mentions := fun m => mentions_esc.trans (Bool.or_false _).symm
  cases o with
  | removed | alreadyAbsent => decide
  | failed m => exact ⟨show mentions "failed" = false by decide, message m⟩
  | refused m => exact ⟨show mentions "refused" = false by decide, message m⟩
  | conflict c m =>
    have token : mentions (conflictToken c) = false := by cases c <;> decide
    exact ⟨token, message m⟩

theorem ledger_mentions (r : LedgerRecord) : (ledgerFields r).any mentions = (AnyRecord.ledger r).clear.any mentions := by
  have kind : ∀ k : ResourceKind, mentions k.asStr = false := fun k => by cases k <;> decide
  cases r with
  | intent key app deployment disposition atMs =>
    have disposed : mentions disposition.asStr = false := by cases disposition <;> decide
    rw [ledgerFields, any_quiet (by decide), any_quiet (kind _)]
    simp [disposed, AnyRecord.clear, AnyRecord.clearLedger]
  | receipt key deployment id atMs =>
    rw [ledgerFields, any_quiet (by decide), any_quiet (kind _)]
    simp [AnyRecord.clear, AnyRecord.clearLedger]
  | cleanupAttempt key deployment atMs =>
    rw [ledgerFields, any_quiet (by decide), any_quiet (kind _)]
    simp [AnyRecord.clear, AnyRecord.clearLedger]
  | cleanupResult key deployment out atMs =>
    obtain ⟨word, message⟩ := cleanupFields_mention out
    rw [ledgerFields, any_quiet (by decide), any_quiet (kind _)]
    simp [word, message, AnyRecord.clear, AnyRecord.clearLedger]

theorem control_mentions (r : Control.ControlRecord) :
    (Control.recordFields r).any mentions = (AnyRecord.control r).clear.any mentions := by
  cases r with
  | pause p =>
    have kind : mentions p.kind.asStr = false := by cases p.kind <;> decide
    rw [Control.recordFields, Control.pauseFields, any_quiet (by decide), any_quiet (by decide)]
    simp [kind, AnyRecord.clear, AnyRecord.clearControl]
  | event e =>
    rw [Control.recordFields, Control.eventFields, any_quiet (by decide), any_quiet (by decide)]
    simp [AnyRecord.clear, AnyRecord.clearControl]
  | exec x =>
    have outcome : mentions (Control.outcomeStr x.outcome) = false := by cases x.outcome <;> decide
    have deployment : mentions ((x.deployment.map Id.asStr).getD "-") = false := mentions_idStr
    rw [Control.recordFields, Control.execFields, any_quiet (by decide), any_quiet (by decide)]
    simp [outcome, deployment, mentions_csv, AnyRecord.clear, AnyRecord.clearControl]
  | resume x =>
    have choice : mentions (Control.choiceFields x.choice).1 = false ∧
        mentions (Control.choiceFields x.choice).2 = (AnyRecord.clearChoice x.choice).any mentions := by
      cases x.choice with
      | dismiss | newest => decide
      | revision r => exact ⟨show mentions "revision" = false by decide, (Bool.or_false _).symm⟩
    have selected : mentions (x.selected.getD "-") = x.selected.toList.any mentions := mentions_getD (by decide)
    have dismissed : mentions (Control.csv x.dismissed) = x.dismissed.any mentions := mentions_csv
    have superseded : mentions (Control.csv (x.superseded.map Control.supersededEntry)) =
        (x.superseded.map (·.1)).any mentions := by
      rw [mentions_csv, List.any_map, List.any_map]
      refine List.any_congr rfl fun p => ?_
      have why : mentions p.2.asStr = false := by cases p.2 <;> decide
      show mentions (p.1 ++ (String.singleton '=' ++ p.2.asStr)) = mentions p.1
      rw [mentions_apart '=' (by decide), why, Bool.or_false]
    have cleared : mentions (Control.csv (x.cleared.map Id.asStr)) = false := by
      rw [mentions_csv, List.any_map, List.any_eq_false]
      exact fun i _ => by simp
    rw [Control.recordFields, Control.resumeFields, any_quiet (by decide), any_quiet (by decide), any_quiet mentions_asStr,
      any_quiet mentions_repr, any_quiet choice.1]
    simp only [List.any_cons, List.any_nil, choice.2, selected, dismissed, superseded, cleared, Bool.or_false,
      AnyRecord.clear, AnyRecord.clearControl, List.any_append]

theorem base_mentions (s : Config.Scope) : mentions s.base = (AnyRecord.clearLevel s.id s.level).any mentions := by
  obtain ⟨level, id, env⟩ := s
  have one : [id].any mentions = mentions id := Bool.or_false _
  cases level with
  | global =>
    show mentions "global" = false
    decide
  | project => exact (mentions_after "project" ':' (by decide) (by decide) (by decide)).trans one.symm
  | application => exact (mentions_after "app" ':' (by decide) (by decide) (by decide)).trans one.symm

theorem slug_mentions (s : Config.Scope) : mentions s.slug = (AnyRecord.clearScope s).any mentions := by
  rw [Config.Scope.slug, AnyRecord.clearScope, List.any_append, ← base_mentions]
  cases s.env with
  | none => exact (Bool.or_false _).symm
  | some e =>
    show mentions (s.base ++ (String.singleton '@' ++ e)) = _
    rw [mentions_apart '@' (by decide)]
    simp

theorem encValue_mentions (v : Config.Value) : mentions (Config.encValue v) = (AnyRecord.clearValue v).any mentions := by
  cases v with
  | config v => exact (mentions_after "c" ':' (by decide) (by decide) (by decide)).trans mentions_hexText
  | secret r =>
    have one : [r.id].any mentions = mentions r.id := Bool.or_false _
    have version : mentions r.asStr = mentions r.id := by
      rw [SecretRef.asStr, mentions_apart '@' (by decide), mentions_repr, Bool.or_false]
    exact (mentions_after "s" ':' (by decide) (by decide) (by decide)).trans (version.trans one.symm)

theorem flags_quiet (f : Config.Flags) : mentions f.code = false := by
  obtain ⟨build, runtime⟩ := f
  cases build <;> cases runtime <;> decide

theorem entry_mentions (e : Config.Entry) :
    mentions (joined '|' (Config.entryParts e)) = (AnyRecord.clearEntry e).any mentions := by
  have source : mentions ((e.source.map Config.Scope.slug).getD "cli") =
      ((e.source.map AnyRecord.clearScope).getD []).any mentions := by
    cases e.source with
    | none => decide
    | some s => exact slug_mentions s
  rw [mentions_joined '|' (by decide), Config.entryParts, AnyRecord.clearEntry, List.any_cons, any_quiet (flags_quiet _)]
  simp only [List.any_cons, List.any_nil, List.any_append, source, encValue_mentions, Bool.or_false]

theorem config_mentions (r : Config.ConfigRecord) :
    (Config.recordFields r).any mentions = (AnyRecord.config r).clear.any mentions := by
  cases r with
  | definition d =>
    have setting : (Config.settingFields d.setting).any mentions = (AnyRecord.clearSetting d.setting).any mentions := by
      cases d.setting with
      | set flags value =>
        rw [Config.settingFields, any_quiet (by decide), any_quiet (flags_quiet _), List.any_cons, encValue_mentions]
        exact Bool.or_false _
      | unset => decide
    rw [Config.recordFields, Config.defFields, List.any_append, List.any_append, any_quiet (by decide), any_quiet (by decide),
      setting]
    simp [slug_mentions, AnyRecord.clear, AnyRecord.clearConfig, Bool.or_assoc]
  | secretSaved x =>
    rw [Config.recordFields, Config.savedFields, any_quiet (by decide), any_quiet (by decide)]
    simp [AnyRecord.clear, AnyRecord.clearConfig]
  | snapshot x =>
    have project : mentions (x.project.getD "-") = x.project.toList.any mentions := mentions_getD (by decide)
    have environment : mentions (x.environment.getD "-") = x.environment.toList.any mentions := mentions_getD (by decide)
    have entries : mentions (Control.csv (x.entries.map fun e => joined '|' (Config.entryParts e))) =
        (x.entries.flatMap AnyRecord.clearEntry).any mentions := by
      rw [mentions_csv, List.any_map, List.any_flatMap]
      exact List.any_congr rfl entry_mentions
    rw [Config.recordFields, Config.snapshotFields, any_quiet (by decide), any_quiet (by decide), any_quiet mentions_asStr,
      any_quiet mentions_asStr]
    simp only [List.any_cons, List.any_nil, project, environment, entries, mentions_repr, Bool.or_false, Bool.false_or,
      AnyRecord.clear, AnyRecord.clearConfig, List.any_append]

theorem git_mentions (r : Git.GitRecord) :
    (Git.recordFields r).any mentions = ((AnyRecord.git r).isRemoval || (AnyRecord.git r).clear.any mentions) := by
  cases r with
  | repo x =>
    have cred : mentions x.cred.asStr = false := by cases x.cred <;> decide
    have webhook : mentions ((x.webhook.map Git.WebhookKind.asStr).getD "-") = false :=
      quiet_getD (by decide) fun k => by cases k <;> decide
    have filters : mentions (Git.filterField x.filters) = false := by
      rw [Git.filterField]
      split
      · decide
      · rw [mentions_joined ',' (by decide), List.any_map, List.any_eq_false]
        exact fun f _ => by simp
    rw [Git.recordFields, Git.repoFields, any_quiet (by decide), any_quiet (by decide)]
    simp [cred, webhook, filters, AnyRecord.isRemoval, AnyRecord.clear, AnyRecord.clearGit]
  | removed x =>
    have word : mentions "gitdrop" = true := by decide
    rw [Git.recordFields, Git.removedFields, List.any_cons, word]
    rfl
  | seen s =>
    rw [Git.recordFields, Git.seenFields, any_quiet (by decide), any_quiet (by decide)]
    simp [AnyRecord.isRemoval, AnyRecord.clear, AnyRecord.clearGit]
  | source s =>
    have selector : mentions s.selector.asStr = false := by cases s.selector <;> decide
    have delivery : mentions (s.delivery.getD "-") = s.delivery.toList.any mentions := mentions_getD (by decide)
    rw [Git.recordFields, Git.sourceFields, any_quiet (by decide), any_quiet (by decide)]
    simp [selector, delivery, AnyRecord.isRemoval, AnyRecord.clear, AnyRecord.clearGit]

theorem stepLog_quiet (r : StepLogRec) : (stepLogFields r).any mentions = false := by
  have step : mentions (stepStr r.step) = false := by cases r.step <;> decide
  have text : mentions (if r.text = "" then "-" else hexText r.text) = false := by
    split
    · decide
    · exact mentions_hexText
  rw [stepLogFields, any_quiet (by decide), any_quiet (by decide)]
  simp [step, text]

/-! ## The row -/

/-- The word of a removal stands in a row if the record is a removal, or a text that the row has in the clear mentions it. -/
theorem row_mentions (r : AnyRecord) : mentions r.encode = (r.isRemoval || r.clear.any mentions) := by
  have sum : mentions (hexPadded 8 (crc32 (utf8 (joined '\t' r.fields))).toNat) = false :=
    mentions_missing (hexPadded_free (by decide))
  rw [AnyRecord.encode, frame, mentions_apart '\t' (by decide), sum, Bool.false_or, mentions_joined '\t' (by decide)]
  cases r with
  | snapshot d => exact snapshot_mentions d
  | ledger r => exact ledger_mentions r
  | control r => exact control_mentions r
  | config r => exact config_mentions r
  | git r => exact git_mentions r
  | stepLog r => exact stepLog_quiet r

/-! ## The refusal -/

/-- What the upgrade answers when it finds a removal. -/
def alreadyRemoved : String := "the journal already holds a removal record, so there is no schema-1 state to back up"

/-- A good copy of a journal of schema 1: it is whole, and it has the journal's rows. -/
structure GoodCopy (records : List AnyRecord) (before : List String) (facts : JournalFileFacts) : Prop where
  rows : before = records.map AnyRecord.encode
  copied : facts.rows = before
  whole : facts.integrity = "ok"
  old : facts.schema ≤ 1

section

variable {records : List AnyRecord} {before : List String} {facts : JournalFileFacts}

/-- Of a good copy, the rows alone decide. -/
theorem GoodCopy.refused_iff (good : GoodCopy records before facts) :
    checkFacts before facts = .error alreadyRemoved ↔ ∃ r ∈ records, r.isRemoval = true ∨ ∃ t ∈ r.clear, mentions t = true := by
  have whole : ¬ facts.integrity ≠ "ok" := not_not_intro good.whole
  have old : ¬ facts.schema > 1 := Int.not_lt.mpr good.old
  have copied : ¬ facts.rows ≠ before := not_not_intro good.copied
  have found : facts.rows.any (containsText "gitdrop") = true ↔
      ∃ r ∈ records, r.isRemoval = true ∨ ∃ t ∈ r.clear, mentions t = true := by
    rw [good.copied, good.rows, List.any_map, List.any_eq_true]
    refine exists_congr fun r => and_congr_right fun _ => ?_
    show mentions r.encode = true ↔ _
    rw [row_mentions, Bool.or_eq_true, List.any_eq_true]
  rw [checkFacts, if_neg whole, if_neg old, if_neg copied, ← found]
  split
  · next yes => exact iff_of_true rfl yes
  · next no => exact iff_of_false nofun no

/-- The upgrade refuses a journal as one with a removal exactly when it has one, if and only if it has one, or none of
its rows mentions a removal in a text that stands in it in the clear. -/
theorem removal_found_iff (good : GoodCopy records before facts) :
    (checkFacts before facts = .error alreadyRemoved ↔ ∃ r ∈ records, r.isRemoval = true) ↔
      (∃ r ∈ records, r.isRemoval = true) ∨ ∀ r ∈ records, ∀ t ∈ r.clear, mentions t = false := by
  rw [good.refused_iff]
  constructor
  · intro exactly
    by_cases removal : ∃ r ∈ records, r.isRemoval = true
    · exact .inl removal
    · refine .inr fun r mem t clear => Bool.eq_false_iff.mpr fun mentioned =>
        removal (exactly.mp ⟨r, mem, .inr ⟨t, clear, mentioned⟩⟩)
  · rintro (removal | quiet)
    · obtain ⟨r, mem, is⟩ := removal
      exact iff_of_true ⟨r, mem, .inl is⟩ ⟨r, mem, is⟩
    · refine exists_congr fun r => and_congr_right fun mem => ?_
      refine ⟨?_, .inl⟩
      rintro (is | ⟨t, clear, mentioned⟩)
      · exact is
      · exact absurd mentioned (Bool.eq_false_iff.mp (quiet r mem t clear))

end

/-! A registration whose URL has the word, and one whose name has it. -/

namespace Removals

def repo (name url : String) : Git.RepoRec :=
  { name := name, url := url, username := none, cred := .none, knownHost := none, webhook := none, app := ⟨1⟩
    project := none, environment := none, branch := "main", filters := [], containerPort := 80, dockerfile := none
    context := none, target := none, healthPath := none, atMs := 5 }

def journal (name url : String) : List AnyRecord := [.git (.repo (repo name url))]

def facts (records : List AnyRecord) : JournalFileFacts := ⟨"ok", 1, records.map AnyRecord.encode⟩

theorem good (records : List AnyRecord) : GoodCopy records (records.map AnyRecord.encode) (facts records) :=
  ⟨rfl, rfl, rfl, show (1 : Int) ≤ 1 by decide⟩

end Removals

open Removals

theorem removal_found_iff_shop :
    checkFacts ((journal "shop" "https://a/gitdrop").map AnyRecord.encode) (facts (journal "shop" "https://a/gitdrop")) =
        .error alreadyRemoved ↔
      ∃ r ∈ journal "shop" "https://a/gitdrop", r.isRemoval = true :=
  (removal_found_iff (good _)).mpr <| .inr <| by decide

/-- A registration may be called `gitdrop`: it is valid, nothing was removed, and the upgrade finds a removal. -/
theorem removal_found_in_name :
    ((repo "gitdrop" "https://a/x").validate.toOption = some .https) ∧
      (∀ r ∈ journal "gitdrop" "https://a/x", r.isRemoval = false) ∧
      checkFacts ((journal "gitdrop" "https://a/x").map AnyRecord.encode) (facts (journal "gitdrop" "https://a/x")) =
        .error alreadyRemoved := by
  refine ⟨by decide, by decide, (good _).refused_iff.mpr ⟨_, List.mem_singleton_self _, .inr ⟨"gitdrop", ?_, by decide⟩⟩⟩
  exact List.mem_singleton_self _

end Harpoon.Journal
