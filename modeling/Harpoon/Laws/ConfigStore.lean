import Harpoon.Laws.Prepare

/-!
# Stores that the commands wrote

The configuration records of a store, and what opening it finds. A store opens when each of its lines is read
and no record contradicts those before it.
-/

namespace Harpoon.Config

open Deploy Wire Journal

section

variable {s s' : ConfigState} {r : ConfigRecord} {rs more : List ConfigRecord} {ref : SecretRef}

/-! ## States of readable records -/

/-- A record that is accepted adds its definition, or leaves the definitions as they are. -/
theorem apply_defs (accepted : s.apply r = .ok s') :
    (∃ d, r = .definition d ∧ s.checkSetting d.setting = .ok () ∧ s'.defs = s.defs ++ [d]) ∨ s'.defs = s.defs := by
  cases r with
  | secretSaved x =>
    simp only [ConfigState.apply] at accepted
    split at accepted
    · cases accepted
    · cases accepted
      exact .inr rfl
  | definition d =>
    obtain ⟨_, checked, accepted⟩ := bind_ok accepted
    cases accepted
    exact .inl ⟨d, rfl, checked, rfl⟩
  | snapshot x =>
    simp only [ConfigState.apply, bind, Except.bind] at accepted
    split at accepted
    · cases accepted
    · split at accepted
      · cases accepted
      · cases accepted
        exact .inr rfl

/-- A reference that is accepted stays accepted. -/
theorem checkSaved_apply (accepted : s.apply r = .ok s') (before : s.checkSaved ref = .ok ()) :
    s'.checkSaved ref = .ok () := by
  rcases apply_cases accepted with ⟨v, _, newer, versions⟩ | ⟨_, versions⟩
  · unfold ConfigState.checkSaved at before ⊢
    rw [versions, Keyed.Table.find_insert]
    by_cases own : v.id = ref.id
    · rw [if_pos own]
      cases found : s.versions.find ref.id with
      | none =>
        rw [found] at before
        cases before
      | some old =>
        rw [found] at before
        have last : s.lastVersion v.id = old.version := by rw [ConfigState.lastVersion, own, found]; rfl
        rw [last] at newer
        have le : ref.version ≤ old.version := by
          split at before
          next le => simpa using le
          next => cases before
        have less : ref.version ≤ v.version := by
          rw [UInt32.le_iff_toNat_le] at le ⊢
          exact Nat.le_trans le (Nat.le_of_lt (UInt32.lt_iff_toNat_lt.mp newer))
        rw [if_pos (by simpa using less)]
    · rw [if_neg own]
      exact before
  · unfold ConfigState.checkSaved at before ⊢
    rw [versions]
    exact before

theorem checkSetting_apply {setting : Setting} (accepted : s.apply r = .ok s')
    (before : s.checkSetting setting = .ok ()) : s'.checkSetting setting = .ok () := by
  cases setting with
  | unset => rfl
  | set flags value =>
    cases value with
    | config v => rfl
    | secret ref => exact checkSaved_apply (r := r) accepted before

/-- Every definition can be read from a line, and names a secret only if it was saved. -/
structure Clean (s : ConfigState) : Prop where
  reads : ∀ d ∈ s.defs, d.Reads
  saved : ∀ d ∈ s.defs, s.checkSetting d.setting = .ok ()

theorem Clean.apply (clean : Clean s) (reads : r.Reads) (accepted : s.apply r = .ok s') : Clean s' := by
  have kept : ∀ d ∈ s.defs, s'.checkSetting d.setting = .ok () := fun d mem =>
    checkSetting_apply accepted (clean.saved d mem)
  rcases apply_defs accepted with ⟨d, rfl, checked, defs⟩ | defs
  · constructor
    · rw [defs]
      exact List.forall_mem_append.mpr ⟨clean.reads, fun d' mem => List.mem_singleton.mp mem ▸ reads⟩
    · rw [defs]
      refine List.forall_mem_append.mpr ⟨kept, fun d' mem => ?_⟩
      rw [List.mem_singleton.mp mem]
      exact checkSetting_apply accepted checked
  · exact ⟨defs ▸ clean.reads, defs ▸ kept⟩

theorem Clean.replay (clean : Clean s) (reads : ∀ r ∈ rs, r.Reads) (accepted : s.replay rs = .ok s') : Clean s' := by
  induction rs generalizing s with
  | nil =>
    cases accepted
    exact clean
  | cons r rs ih =>
    obtain ⟨mid, applied, accepted⟩ := bind_ok accepted
    exact ih (clean.apply (reads r List.mem_cons_self) applied)
      (fun q mem => reads q (List.mem_cons_of_mem r mem)) accepted

/-! ## Lines -/

variable {β : Type} {others : List String → Except String β} {lines : List String}

theorem reads_of_records (read : records others lines = .ok rs) : ∀ r ∈ rs, r.Reads := by
  induction lines generalizing rs with
  | nil =>
    cases read
    exact fun r mem => by cases mem
  | cons line lines ih =>
    obtain ⟨first, one, read⟩ := bind_ok read
    obtain ⟨rest, known, read⟩ := bind_ok read
    split at read
    · cases read
      exact List.forall_mem_cons.mpr ⟨reads_of_decodeLine one, ih known⟩
    · cases read
      exact ih known

/-- A store that opens has a clean state. -/
theorem clean_of_reopen (opened : reopen others lines = .ok s) : Clean s := by
  obtain ⟨rs, read, replayed⟩ := bind_ok opened
  have start : Clean .empty := ⟨fun d mem => (by cases mem), fun d mem => (by cases mem)⟩
  exact start.replay (reads_of_records read) replayed

theorem records_append (read : records others lines = .ok rs) (reads : ∀ r ∈ more, r.Reads) :
    records others (lines ++ more.map encode) = .ok (rs ++ more) := by
  induction lines generalizing rs with
  | nil =>
    cases read
    rw [List.nil_append, List.nil_append]
    induction more with
    | nil => rfl
    | cons r more ih =>
      obtain ⟨first, rest⟩ := List.forall_mem_cons.mp reads
      rw [List.map_cons, records, decodeLine_encode first]
      simp only [bind, Except.bind, ih rest]
      rfl
  | cons line lines ih =>
    obtain ⟨first, one, read⟩ := bind_ok read
    obtain ⟨rest, known, read⟩ := bind_ok read
    rw [List.cons_append, records, one]
    simp only [bind, Except.bind, ih known]
    split at read
    · cases read
      rfl
    · cases read
      rfl

theorem replay_append {middle : ConfigState} (replayed : s.replay rs = .ok middle) :
    s.replay (rs ++ more) = middle.replay more := by
  induction rs generalizing s with
  | nil =>
    cases replayed
    rfl
  | cons r rs ih =>
    obtain ⟨next, applied, replayed⟩ := bind_ok replayed
    rw [List.cons_append, ConfigState.replay, applied]
    exact ih replayed

/-- A store with more records opens as those records say. -/
theorem reopen_append (opened : reopen others lines = .ok s) (reads : ∀ r ∈ more, r.Reads) :
    reopen others (lines ++ more.map encode) = s.replay more := by
  obtain ⟨rs, read, replayed⟩ := bind_ok opened
  rw [reopen, records_append read reads]
  exact replay_append replayed

/-! ## What a command writes -/

/-- The times that a command reads fit their fields. -/
def Command.Timely : Command → Prop
  | .set _ _ nowMs => nowMs ≤ maxNumber
  | .unset _ nowMs => nowMs ≤ maxNumber
  | .secret _ _ savedMs definedMs => savedMs ≤ maxNumber ∧ definedMs ≤ maxNumber
  | .deploy _ _ nowMs => nowMs ≤ maxNumber

/-- What a command must be given for its records to survive: a secret whose id is not too long and that has a
version left, and a project and an environment whose names stand in their fields as they are. The deployment
is a new one. -/
def Command.Fits (s : ConfigState) : Command → Prop
  | .set .. => True
  | .unset .. => True
  | .secret t _ _ _ => ∀ scope name, scopeFlag t.scope = .ok scope → nameFlag t.name = .ok name →
      (secretId scope name).utf8ByteSize ≤ 3 * maxToken ∧ s.lastVersion (secretId scope name) ≠ 0xFFFFFFFF
  | .deploy r dep _ => Written r.project ∧ Written r.environment ∧ s.snapshotOf dep = none

/-- Each of the records is read back from its line, and the store opens with them. -/
def Survives (others : List String → Except String β) (lines : List String) (rs : List ConfigRecord) : Prop :=
  (∀ r ∈ rs, decodeLine (decodeOther others) (encode r) = .ok (.other (.inl r))) ∧
    ∃ s, reopen others (lines ++ rs.map encode) = .ok s

theorem survives_iff_reads (opened : reopen others lines = .ok s) :
    Survives others lines rs ↔ (∀ r ∈ rs, r.Reads) ∧ ∃ s', s.replay rs = .ok s' := by
  constructor
  · rintro ⟨back, s', again⟩
    have reads : ∀ r ∈ rs, r.Reads := fun r mem => decodeLine_encode_iff.mp (back r mem)
    rw [reopen_append opened reads] at again
    exact ⟨reads, s', again⟩
  · rintro ⟨reads, s', replayed⟩
    exact ⟨fun r mem => decodeLine_encode (reads r mem), s', (reopen_append opened reads).trans replayed⟩

variable {t : Target} {scope : Scope} {name id : String} {put : SecretRef → Except SecretError Unit}

theorem valid_scopeFlag {o : Option String} (accepted : scopeFlag o = .ok scope) : scope.Valid := by
  cases o with
  | none => cases accepted
  | some text =>
    have read : (Scope.parse text).mapError (fun e => s!"--scope: {e}") = .ok scope := accepted
    cases parsed : Scope.parse text with
    | error e =>
      rw [parsed] at read
      cases read
    | ok s =>
      rw [parsed] at read
      cases read
      exact Scope.valid_of_parse parsed

theorem name_nameFlag {o : Option String} (accepted : nameFlag o = .ok name) : checkName name = .ok () := by
  cases o with
  | none => cases accepted
  | some text =>
    obtain ⟨_, checked, accepted⟩ := bind_ok accepted
    cases accepted
    exact checked

theorem used_flagsOf {build runtime : Bool} : (flagsOf build runtime).Used := by
  cases build with
  | true => exact .inl rfl
  | false => cases runtime <;> exact .inr rfl

/-- The id of a secret of a valid name is accepted exactly when it is not too long. -/
theorem checkSecretId_iff (valid : scope.Valid) (named : checkName name = .ok ()) :
    checkSecretId (secretId scope name) = .ok () ↔ (secretId scope name).utf8ByteSize ≤ 3 * maxToken := by
  have chars : ∀ c ∈ (secretId scope name).toList, secretIdChar c = true := by
    intro c mem
    rw [secretId, String.toList_append, String.toList_append] at mem
    rcases List.mem_append.mp mem with mem | mem
    · exact valid.slug_chars c mem
    · rcases List.mem_append.mp mem with mem | mem
      · have slash : ∀ c ∈ "/".toList, secretIdChar c = true := forall_mem_of_all (by decide)
        exact slash c mem
      · have letter := Envvars.name_chars named c mem
        rcases Bool.or_eq_true_iff.mp letter with alnum | under
        · simp [secretIdChar, tokenChar, alnum]
        · simp [secretIdChar, tokenChar, of_decide_eq_true under]
  have some : (secretId scope name).isEmpty = false := by
    have slash : '/' ∈ (secretId scope name).toList := by
      rw [secretId, String.toList_append, String.toList_append]
      exact List.mem_append_right _ (List.mem_append_left _ (by decide))
    cases empty : (secretId scope name).isEmpty with
    | false => rfl
    | true =>
      rw [String.isEmpty_iff.mp empty] at slash
      cases slash
  have none : (secretId scope name).toList.any (fun c => !secretIdChar c) = false :=
    List.any_eq_false.mpr fun c mem => by simp [chars c mem]
  unfold checkSecretId
  rw [some, none]
  constructor
  · intro accepted
    split at accepted
    · cases accepted
    next good => exact Nat.le_of_not_lt fun long => good (.inr (.inl long))
  · intro short
    exact if_neg (by simpa using short)

/-- The version that is saved is of the same secret, and not before the one that was asked for. -/
theorem putFrom_version {first version : UInt32} {tries : Nat} {ref : SecretRef}
    (saved : putFrom put name id first tries version = .ok ref) : ref.id = id ∧ version ≤ ref.version := by
  induction tries generalizing version with
  | zero =>
    unfold putFrom at saved
    split at saved
    · cases saved
      exact ⟨rfl, UInt32.le_refl version⟩
    · contradiction
    · cases saved
  | succ tries ih =>
    unfold putFrom at saved
    split at saved
    · cases saved
      exact ⟨rfl, UInt32.le_refl version⟩
    next same =>
      cases same
      split at saved
      next room =>
        obtain ⟨own, later⟩ := ih saved
        have next : (version + 1).toNat = version.toNat + 1 := by
          have below := UInt32.lt_iff_toNat_lt.mp room
          have limit := (first + 8).toNat_lt
          rw [UInt32.toNat_add]
          exact Nat.mod_eq_of_lt (Nat.lt_of_le_of_lt (Nat.succ_le_of_lt below) limit)
        refine ⟨own, UInt32.le_iff_toNat_le.mpr ?_⟩
        have later := UInt32.le_iff_toNat_le.mp later
        omega
      · cases saved
    · cases saved

/-! ### Definitions -/

theorem reads_configSet {value : Option String} {nowMs : Nat} (timely : nowMs ≤ maxNumber)
    (written : configSet t value nowMs = .ok r) : r.Reads ∧ ∀ s : ConfigState, ∃ s', s.apply r = .ok s' := by
  obtain ⟨scope, where_, written⟩ := bind_ok written
  obtain ⟨name, called, written⟩ := bind_ok written
  cases value with
  | none => cases written
  | some v =>
    obtain ⟨_, form, written⟩ := bind_ok written
    cases written
    have reads : (Value.config v).Reads name := form
    exact ⟨⟨valid_scopeFlag where_, name_nameFlag called, ⟨used_flagsOf, reads⟩, timely⟩, fun s => ⟨_, rfl⟩⟩

theorem reads_configUnset {nowMs : Nat} (timely : nowMs ≤ maxNumber) (written : configUnset t nowMs = .ok r) :
    r.Reads ∧ ∀ s : ConfigState, ∃ s', s.apply r = .ok s' := by
  obtain ⟨scope, where_, written⟩ := bind_ok written
  obtain ⟨name, called, written⟩ := bind_ok written
  cases written
  exact ⟨⟨valid_scopeFlag where_, name_nameFlag called, trivial, timely⟩, fun s => ⟨_, rfl⟩⟩

theorem replay_singleton : (∃ s', s.replay [r] = .ok s') ↔ ∃ s', s.apply r = .ok s' := by
  constructor
  · rintro ⟨s', replayed⟩
    obtain ⟨next, applied, _⟩ := bind_ok replayed
    exact ⟨next, applied⟩
  · rintro ⟨s', applied⟩
    exact ⟨s', by rw [ConfigState.replay, applied]; rfl⟩

/-! ### Secrets -/

/-- A save and its definition are accepted exactly when the version is above the last one. -/
theorem replay_secret {v : UInt32} {flags : Flags} {savedMs definedMs : Nat} :
    (∃ s', s.replay [.secretSaved ⟨id, v, savedMs⟩, .definition ⟨scope, name, .set flags (.secret ⟨id, v⟩), definedMs⟩]
      = .ok s') ↔ s.lastVersion id < v := by
  constructor
  · rintro ⟨s', replayed⟩
    obtain ⟨next, applied, _⟩ := bind_ok replayed
    simp only [ConfigState.apply] at applied
    split at applied
    · cases applied
    next newer => exact UInt32.not_le.mp newer
  · intro newer
    have found : (s.versions.insert ⟨id, v⟩).find id = some ⟨id, v⟩ := by
      rw [Keyed.Table.find_insert, if_pos rfl]
    have first : s.apply (.secretSaved ⟨id, v, savedMs⟩) = .ok { s with versions := s.versions.insert ⟨id, v⟩ } := by
      simp only [ConfigState.apply]
      exact if_neg (UInt32.not_le.mpr newer)
    have known : ConfigState.checkSaved { s with versions := s.versions.insert ⟨id, v⟩ } ⟨id, v⟩ = .ok () := by
      simp only [ConfigState.checkSaved, found]
      exact if_pos (by simp)
    have second : ConfigState.apply { s with versions := s.versions.insert ⟨id, v⟩ }
        (.definition ⟨scope, name, .set flags (.secret ⟨id, v⟩), definedMs⟩) =
          .ok ⟨s.defs ++ [⟨scope, name, .set flags (.secret ⟨id, v⟩), definedMs⟩], s.versions.insert ⟨id, v⟩,
            s.snapshots⟩ := by
      simp only [ConfigState.apply, ConfigState.checkSetting, ConfigState.checkValue, known]
      rfl
    rw [ConfigState.replay, first]
    exact replay_singleton.mpr ⟨_, second⟩

theorem survives_secret {savedMs definedMs : Nat} (timely : savedMs ≤ maxNumber ∧ definedMs ≤ maxNumber)
    (written : secretSet t put s savedMs definedMs = .ok rs) :
    ((∀ r ∈ rs, r.Reads) ∧ ∃ s', s.replay rs = .ok s') ↔
      ∀ scope name, scopeFlag t.scope = .ok scope → nameFlag t.name = .ok name →
        (secretId scope name).utf8ByteSize ≤ 3 * maxToken ∧ s.lastVersion (secretId scope name) ≠ 0xFFFFFFFF := by
  obtain ⟨scope, where_, written⟩ := bind_ok written
  obtain ⟨name, called, written⟩ := bind_ok written
  obtain ⟨⟨_, v⟩, saved, written⟩ := bind_ok written
  cases written
  obtain ⟨own, later⟩ := putFrom_version saved
  cases own
  have valid := valid_scopeFlag where_
  have named := name_nameFlag called
  have later : (s.nextVersion (secretId scope name)).toNat ≤ v.toNat := UInt32.le_iff_toNat_le.mp later
  constructor
  · rintro ⟨reads, replayed⟩ scope' name' where' called'
    cases where_.symm.trans where'
    cases called.symm.trans called'
    have id := (reads _ List.mem_cons_self : SecretSaved.Reads _).id
    refine ⟨(checkSecretId_iff valid named).mp id, fun full => ?_⟩
    have newer : (s.lastVersion (secretId scope name)).toNat < v.toNat :=
      UInt32.lt_iff_toNat_lt.mp (replay_secret.mp replayed)
    rw [full] at newer
    have limit := v.toNat_lt
    have largest : (0xFFFFFFFF : UInt32).toNat = 4294967295 := rfl
    omega
  · intro fits
    obtain ⟨short, room⟩ := fits scope name where_ called
    have id := (checkSecretId_iff valid named).mpr short
    have next : (s.nextVersion (secretId scope name)).toNat = (s.lastVersion (secretId scope name)).toNat + 1 := by
      have limit := (s.lastVersion (secretId scope name)).toNat_lt
      have other : (s.lastVersion (secretId scope name)).toNat ≠ 0xFFFFFFFF := fun same => room (UInt32.toNat_inj.mp same)
      rw [ConfigState.nextVersion, UInt32.toNat_add]
      exact Nat.mod_eq_of_lt (by show _ + 1 < 2 ^ 32; omega)
    have newer : s.lastVersion (secretId scope name) < v := UInt32.lt_iff_toNat_lt.mpr (by omega)
    have version : v ≠ 0 := by
      rintro rfl
      have newer := UInt32.lt_iff_toNat_lt.mp newer
      exact absurd newer (Nat.not_lt_zero _)
    refine ⟨?_, replay_secret.mpr newer⟩
    have first : (ConfigRecord.secretSaved ⟨secretId scope name, v, savedMs⟩).Reads := ⟨id, timely.1⟩
    have second : (ConfigRecord.definition ⟨scope, name, .set (flagsOf t.build t.runtime)
        (.secret ⟨secretId scope name, v⟩), definedMs⟩).Reads := ⟨valid, named, ⟨used_flagsOf, id, version⟩, timely.2⟩
    exact List.forall_mem_cons.mpr ⟨first, List.forall_mem_cons.mpr ⟨second, fun r mem => (by cases mem)⟩⟩

/-! ### Snapshots -/

variable {entries : List Entry} {e : Entry}

/-- Every entry of a deployment can be read from a line. -/
theorem Sound.reads (sound : Sound s entries) (clean : Clean s) (mem : e ∈ entries) : e.Reads := by
  have name := sound.name e mem
  have text := sound.text e mem
  rcases sound.origin e mem with ⟨flags, source, v, value⟩ | ⟨d, known, flags, value, set, rfl⟩
  · refine ⟨name, ?_, fun s some => ?_, ?_⟩
    · rcases flags with flags | flags
      · rw [flags]; exact .inr rfl
      · rw [flags]; exact .inl rfl
    · rw [source] at some
      cases some
    · rw [value] at text ⊢
      exact text
  · have reads := clean.reads d known
    have setting := reads.setting
    rw [set] at setting
    refine ⟨name, setting.1, fun s some => ?_, setting.2⟩
    cases some
    exact reads.scope

theorem Sound.checkValue (sound : Sound s entries) (clean : Clean s) (mem : e ∈ entries) :
    s.checkValue e.value = .ok () := by
  rcases sound.origin e mem with ⟨_, _, v, value⟩ | ⟨d, known, flags, value, set, rfl⟩
  · rw [value]
    rfl
  · have saved := clean.saved d known
    rw [set] at saved
    exact saved

theorem checkEntries_ok {seen : List String} (unique : (entries.map Entry.name).Nodup)
    (fresh : ∀ e ∈ entries, e.name ∉ seen) (known : ∀ e ∈ entries, s.checkValue e.value = .ok ()) :
    s.checkEntries seen entries = .ok () := by
  induction entries generalizing seen with
  | nil => rfl
  | cons first rest ih =>
    obtain ⟨other, unique⟩ := List.nodup_cons.mp unique
    obtain ⟨checked, known⟩ := List.forall_mem_cons.mp known
    have new : seen.contains first.name = false := by simpa using fresh first List.mem_cons_self
    have later : ∀ e ∈ rest, e.name ∉ first.name :: seen := by
      intro e mem before
      rcases List.mem_cons.mp before with same | before
      · exact other (same ▸ List.mem_map_of_mem mem)
      · exact fresh e (List.mem_cons_of_mem first mem) before
    simp only [ConfigState.checkEntries, new, checked, bind, Except.bind, Bool.false_eq_true, if_false]
    exact ih unique later known

variable {q : Request} {dep : DeploymentId} {nowMs : Nat} {p : Prepared}

theorem survives_snapshot (clean : Clean s) (timely : nowMs ≤ maxNumber) (prepared : prepare q s = .ok p) :
    ((∀ r ∈ [p.snapshot dep q.app nowMs], r.Reads) ∧ ∃ s', s.replay [p.snapshot dep q.app nowMs] = .ok s') ↔
      Written q.project ∧ Written q.environment ∧ s.snapshotOf dep = none := by
  obtain ⟨sound, project, environment, _⟩ := prepare_entries prepared
  have entries : s.checkEntries [] p.entries = .ok () :=
    checkEntries_ok sound.ordered.unique (fun e _ => List.not_mem_nil) fun e mem => sound.checkValue clean mem
  have fresh : (∃ s', s.apply (p.snapshot dep q.app nowMs) = .ok s') ↔ s.snapshotOf dep = none := by
    have known : s.snapshotOf dep = none ↔ (s.snapshots.any fun y => y.deployment = dep) = false := by
      simp [ConfigState.snapshotOf]
    rw [known]
    simp only [Prepared.snapshot, ConfigState.apply, entries, bind, Except.bind]
    cases s.snapshots.any fun y => y.deployment = dep with
    | true =>
      constructor
      · rintro ⟨_, accepted⟩
        cases accepted
      · intro none
        cases none
    | false => exact ⟨fun _ => rfl, fun _ => ⟨_, rfl⟩⟩
  rw [replay_singleton, fresh, ← project, ← environment]
  constructor
  · rintro ⟨reads, none⟩
    have reads : Snapshot.Reads _ := reads _ List.mem_cons_self
    exact ⟨reads.project, reads.environment, none⟩
  · rintro ⟨project, environment, none⟩
    refine ⟨fun r mem => ?_, none⟩
    rw [List.mem_singleton.mp mem]
    exact ⟨project, environment, timely, fun e mem => sound.reads clean mem⟩

/-! ## Stores that reopen -/

variable {c : Command}

/-- The records of a command survive exactly when it is given what fits. -/
theorem survives_iff (opened : reopen others lines = .ok s) (timely : c.Timely) (written : c.written s = .ok rs) :
    Survives others lines rs ↔ c.Fits s := by
  rw [survives_iff_reads opened]
  cases c with
  | set t value nowMs =>
    obtain ⟨r, set, written⟩ := bind_ok written
    cases written
    obtain ⟨reads, applies⟩ := reads_configSet timely set
    refine iff_of_true ⟨fun q mem => ?_, replay_singleton.mpr (applies s)⟩ trivial
    rw [List.mem_singleton.mp mem]
    exact reads
  | unset t nowMs =>
    obtain ⟨r, set, written⟩ := bind_ok written
    cases written
    obtain ⟨reads, applies⟩ := reads_configUnset timely set
    refine iff_of_true ⟨fun q mem => ?_, replay_singleton.mpr (applies s)⟩ trivial
    rw [List.mem_singleton.mp mem]
    exact reads
  | secret t put savedMs definedMs => exact survives_secret timely written
  | deploy q dep nowMs =>
    obtain ⟨p, prepared, written⟩ := bind_ok written
    cases written
    exact survives_snapshot (clean_of_reopen opened) timely prepared

/-- A store that only commands with what fits wrote to, each after it opened the store. A command may stop
after any of its records; the other kinds of record stand between. -/
inductive Kept (others : List String → Except String β) : List String → Prop
  | empty : Kept others []
  | command {lines : List String} {s : ConfigState} {c : Command} {rs : List ConfigRecord} (n : Nat) :
      Kept others lines → reopen others lines = .ok s → c.Timely → c.Fits s → c.written s = .ok rs →
        Kept others (lines ++ (rs.take n).map encode)
  | other {lines : List String} {line : String} {l : Line (ConfigRecord ⊕ β)} :
      Kept others lines → decodeLine (decodeOther others) line = .ok l → (∀ r, l ≠ .other (.inl r)) →
        Kept others (lines ++ [line])

theorem replay_take (n : Nat) (replayed : s.replay rs = .ok s') : ∃ middle, s.replay (rs.take n) = .ok middle := by
  induction rs generalizing s n with
  | nil => exact ⟨s, by rw [List.take_nil]; rfl⟩
  | cons r rs ih =>
    obtain ⟨next, applied, replayed⟩ := bind_ok replayed
    cases n with
    | zero => exact ⟨s, rfl⟩
    | succ n =>
      obtain ⟨middle, first⟩ := ih n replayed
      exact ⟨middle, by rw [List.take_succ_cons, ConfigState.replay, applied]; exact first⟩

theorem records_other {line : String} {l : Line (ConfigRecord ⊕ β)} (read : records others lines = .ok rs)
    (one : decodeLine (decodeOther others) line = .ok l) (other : ∀ r, l ≠ .other (.inl r)) :
    records others (lines ++ [line]) = .ok rs := by
  induction lines generalizing rs with
  | nil =>
    cases read
    rw [List.nil_append, records, one]
    simp only [bind, Except.bind, records]
    rfl
  | cons first lines ih =>
    obtain ⟨l', head, read⟩ := bind_ok read
    obtain ⟨rest, known, read⟩ := bind_ok read
    rw [List.cons_append, records, head]
    simp only [bind, Except.bind, ih known]
    exact read

theorem Kept.reopens (kept : Kept others lines) : ∃ s, reopen others lines = .ok s := by
  induction kept with
  | empty => exact ⟨.empty, rfl⟩
  | command n _ opened timely fits written _ =>
    obtain ⟨reads, s', replayed⟩ := (survives_iff_reads opened).mp ((survives_iff opened timely written).mpr fits)
    obtain ⟨middle, first⟩ := replay_take n replayed
    exact ⟨middle, (reopen_append opened fun r mem => reads r (List.mem_of_mem_take mem)).trans first⟩
  | other _ one other ih =>
    obtain ⟨s, opened⟩ := ih
    obtain ⟨rs, read, replayed⟩ := bind_ok opened
    exact ⟨s, by rw [reopen, records_other read one other]; exact replayed⟩

/-- The records that a command writes survive, each from its own line and all of them in the store, exactly when
the command is given what fits. A store that only such commands wrote opens, wherever they stopped. -/
theorem config_records_survive (others : List String → Except String β) :
    (∀ lines s c rs, reopen others lines = .ok s → Command.Timely c → c.written s = .ok rs →
      (Survives others lines rs ↔ c.Fits s)) ∧
      ∀ lines, Kept others lines → ∃ s, reopen others lines = .ok s :=
  ⟨fun _ _ _ _ opened timely written => survives_iff opened timely written, fun _ kept => kept.reopens⟩

end

theorem ok_of_isOk {ε : Type} {x : Except ε Unit} (ok : x.isOk = true) : x = .ok () := by
  cases x with
  | error e => cases ok
  | ok _ => rfl

/-- The first save of a secret, to a secret store that takes it. -/
def firstSave (scope : Scope) (name : String) : Command :=
  .secret ⟨some scope.slug, some name, false, true⟩ (fun _ => .ok ()) 0 0

/-- What the first save writes. -/
def firstRecords (scope : Scope) (name : String) : List ConfigRecord :=
  [.secretSaved ⟨secretId scope name, 1, 0⟩,
    .definition ⟨scope, name, .set ⟨false, true⟩ (.secret ⟨secretId scope name, 1⟩), 0⟩]

theorem written_firstSave {scope : Scope} {name : String} (valid : scope.Valid) (checked : checkName name = .ok ()) :
    (firstSave scope name).written .empty = .ok (firstRecords scope name) := by
  have where_ : scopeFlag (some scope.slug) = .ok scope := by
    simp only [scopeFlag, valid.parse_slug]
    rfl
  have called : nameFlag (some name) = .ok name := by
    simp only [nameFlag, checked, bind, Except.bind]
    rfl
  simp only [firstSave, Command.written, secretSet, where_, called, bind, Except.bind]
  rfl

theorem config_records_survive_token :
    Survives (fun _ => (.error "" : Except String Unit)) [] (firstRecords (.everywhere none) "TOKEN") := by
  have valid : (Scope.everywhere none).Valid := ⟨rfl, rfl⟩
  have checked : checkName "TOKEN" = .ok () := ok_of_isOk (by decide)
  refine ((config_records_survive _).1 [] .empty (firstSave (.everywhere none) "TOKEN") _ rfl
    ⟨Nat.zero_le _, Nat.zero_le _⟩ (written_firstSave valid checked)).mpr ?_
  intro scope name where_ called
  have slug : scopeFlag (some (Scope.everywhere none).slug) = .ok (.everywhere none) := by
    simp only [scopeFlag, valid.parse_slug]
    rfl
  cases slug.symm.trans where_
  have same : nameFlag (some "TOKEN") = .ok "TOKEN" := by
    simp only [nameFlag, checked, bind, Except.bind]
    rfl
  cases same.symm.trans called
  exact ⟨by decide, by decide⟩

/-- A scope whose names have the largest length. -/
def longScope : Scope :=
  ⟨.project, String.ofList (List.replicate 128 'p'), some (String.ofList (List.replicate 128 'e'))⟩

def longName : String := String.ofList (List.replicate 128 'N')

/-- A secret of the longest names is saved under an id that no line can be read with. -/
theorem long_secret_lost :
    ¬ ∀ (lines : List String) s c rs, reopen (fun _ => (.error "" : Except String Unit)) lines = .ok s →
      Command.Timely c → c.written s = .ok rs → Survives (fun _ => (.error "" : Except String Unit)) lines rs := by
  intro all
  have valid : longScope.Valid := ⟨ok_of_isOk (by decide +kernel), ok_of_isOk (by decide +kernel)⟩
  have checked : checkName longName = .ok () := ok_of_isOk (by decide +kernel)
  have survives := all [] .empty (firstSave longScope longName) _ rfl ⟨Nat.zero_le _, Nat.zero_le _⟩
    (written_firstSave valid checked)
  have reads : SecretSaved.Reads ⟨secretId longScope longName, 1, 0⟩ :=
    decodeLine_encode_iff.mp (survives.1 _ List.mem_cons_self)
  have refused : (checkSecretId (secretId longScope longName)).isOk = false := by decide +kernel
  rw [reads.id] at refused
  cases refused

end Harpoon.Config
