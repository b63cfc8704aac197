import Harpoon.Config.Prepare
import Harpoon.Journal.Config
import Harpoon.Laws.Config
import Harpoon.Laws.Format

/-!
# Configuration records and their lines

A configuration record is read back from its line exactly when its texts pass the checks that the decoder
makes. The commands make most of these checks themselves.
-/

namespace Harpoon.Config

open Deploy Wire Journal

/-! ## Texts -/

section

variable {what v : String} {s scope : Scope} {sep : Char} {c : Char}

theorem token_chars (accepted : token what v = .ok ()) : ∀ c ∈ v.toList, tokenChar c = true := by
  unfold token at accepted
  split at accepted
  · cases accepted
  · intro c mem
    split at accepted
    · cases accepted
    next none => simpa using List.find?_eq_none.mp none c mem

/-- What a valid scope is made of. -/
structure Scope.Valid (s : Scope) : Prop where
  id : s.validateId = .ok ()
  env : s.validateEnv = .ok ()

theorem Scope.valid_iff : s.validate = .ok () ↔ s.Valid := by
  simp only [Scope.validate, bind, Except.bind]
  constructor
  · intro accepted
    split at accepted
    · cases accepted
    next id => exact ⟨id, accepted⟩
  · intro valid
    simp only [valid.id, valid.env]

namespace Scope.Valid

theorem id_chars (valid : s.Valid) : ∀ c ∈ s.id.toList, tokenChar c = true := by
  have accepted := valid.id
  unfold Scope.validateId at accepted
  split at accepted
  · split at accepted
    next empty =>
      rw [String.isEmpty_iff.mp empty]
      intro c mem
      cases mem
    next => cases accepted
  · exact token_chars accepted
  · split at accepted
    next read =>
      have letters : (∀ c ∈ Id.alphabet, tokenChar c = true) ∧
          ∀ c ∈ (IdKind.application.prefixStr ++ "_").toList, tokenChar c = true :=
        ⟨forall_mem_of_all (by decide), forall_mem_of_all (by decide)⟩
      exact fun c mem => (Id.mem_of_parse read c mem).elim (letters.2 c) (letters.1 c)
    next => cases accepted

theorem env_chars (valid : s.Valid) {e : String} (some : s.env = some e) : ∀ c ∈ e.toList, tokenChar c = true := by
  have accepted := valid.env
  unfold Scope.validateEnv at accepted
  rw [some] at accepted
  exact token_chars accepted

theorem base_chars (valid : s.Valid) : ∀ c ∈ s.base.toList, tokenChar c = true ∨ c = ':' := by
  have words : (∀ c ∈ "global".toList, tokenChar c = true ∨ c = ':') ∧
      (∀ c ∈ "project:".toList, tokenChar c = true ∨ c = ':') ∧ ∀ c ∈ "app:".toList, tokenChar c = true ∨ c = ':' :=
    ⟨forall_mem_of_all (by decide), forall_mem_of_all (by decide),
      forall_mem_of_all (by decide)⟩
  intro c mem
  unfold Scope.base at mem
  split at mem
  · exact words.1 c mem
  · rw [String.toList_append] at mem
    exact (List.mem_append.mp mem).elim (words.2.1 c) fun mem => .inl (valid.id_chars c mem)
  · rw [String.toList_append] at mem
    exact (List.mem_append.mp mem).elim (words.2.2 c) fun mem => .inl (valid.id_chars c mem)

/-- The characters of a slug may stand in the id of a secret. -/
theorem slug_chars (valid : s.Valid) : ∀ c ∈ s.slug.toList, secretIdChar c = true := by
  have base : ∀ c ∈ s.base.toList, secretIdChar c = true := by
    intro c mem
    rcases valid.base_chars c mem with inside | colon
    · simp [secretIdChar, inside]
    · simp [secretIdChar, colon]
  intro c mem
  unfold Scope.slug at mem
  split at mem
  next e some =>
    rw [String.toList_append, String.toList_append, String.toList_singleton] at mem
    rcases List.mem_append.mp mem with mem | mem
    · exact base c mem
    · rcases List.mem_cons.mp mem with rfl | mem
      · decide
      · simp [secretIdChar, valid.env_chars some c mem]
  next => exact base c mem

theorem slug_free (valid : s.Valid) (foreign : secretIdChar sep = false) : Free sep s.slug :=
  fun mem => by cases foreign.symm.trans (valid.slug_chars sep mem)

theorem splitEnv_slug (valid : s.Valid) : Scope.splitEnv s.slug = (s.base, s.env) := by
  have free : Free '@' s.base := by
    intro mem
    rcases valid.base_chars '@' mem with inside | colon
    · exact absurd inside (by decide)
    · exact absurd colon (by decide)
  unfold Scope.splitEnv Scope.slug
  cases env : s.env with
  | none => simp only [splitOnce_none free]
  | some e => simp only [splitOnce_append free]

theorem ofBase_base (valid : s.Valid) : Scope.ofBase s.base s.env = some s := by
  have colon : ∀ {p t : String}, ':' ∈ p.toList → p ++ t ≠ "global" := by
    intro p t inside same
    have mem : ':' ∈ (p ++ t).toList := by
      rw [String.toList_append]
      exact List.mem_append_left _ inside
    rw [same] at mem
    exact absurd mem (by decide)
  obtain ⟨level, id, env⟩ := s
  unfold Scope.ofBase Scope.base
  cases level with
  | global =>
    have empty : id = "" := by
      have accepted := valid.id
      simp only [Scope.validateId] at accepted
      split at accepted
      next empty => exact String.isEmpty_iff.mp empty
      next => cases accepted
    simp only [if_true, empty]
  | project =>
    simp only [if_neg (colon (p := "project:") (t := id) (by decide)), stripPrefix_append]
  | application =>
    have other : stripPrefix "project:" ("app:" ++ id) = none := by
      cases strips : stripPrefix "project:" ("app:" ++ id) with
      | none => rfl
      | some t =>
        have chars := congrArg (fun t : String => t.toList.head?) (eq_of_stripPrefix strips)
        simp only [String.toList_append] at chars
        exact absurd chars (by simp)
    simp only [if_neg (colon (p := "app:") (t := id) (by decide)), other, stripPrefix_append, Option.map_some]

/-- A scope is read back from its slug. -/
theorem parse_slug (valid : s.Valid) : Scope.parse s.slug = .ok s := by
  have accepted := Scope.valid_iff.mpr valid
  unfold Scope.parse
  rw [valid.splitEnv_slug, valid.ofBase_base]
  simp only [accepted, bind, Except.bind]
  rfl

end Scope.Valid

theorem Scope.valid_of_parse {slug : String} (read : Scope.parse slug = .ok s) : s.Valid := by
  unfold Scope.parse at read
  split at read
  · cases read
  next scope _ =>
    simp only [bind, Except.bind] at read
    split at read
    · cases read
    next accepted =>
      cases read
      exact Scope.valid_iff.mp accepted

end

/-! ## What a line can hold -/

/-- The value is one that the decoder accepts under the name. -/
def Value.Reads (name : String) : Value → Prop
  | .config v => checkConfigValue name v = .ok ()
  | .secret r => checkSecretId r.id = .ok () ∧ r.version ≠ 0

def Flags.Used (f : Flags) : Prop := f.build = true ∨ f.runtime = true

def Setting.Reads (name : String) : Setting → Prop
  | .set flags value => flags.Used ∧ value.Reads name
  | .unset => True

structure Def.Reads (d : Def) : Prop where
  scope : d.scope.Valid
  name : checkName d.name = .ok ()
  setting : d.setting.Reads d.name
  time : d.atMs ≤ maxNumber

structure SecretSaved.Reads (x : SecretSaved) : Prop where
  id : checkSecretId x.id = .ok ()
  time : x.atMs ≤ maxNumber

structure Entry.Reads (e : Entry) : Prop where
  name : checkName e.name = .ok ()
  flags : e.flags.Used
  source : ∀ s, e.source = some s → s.Valid
  value : e.value.Reads e.name

/-- An optional text that stands in its field as it is. -/
def Written (o : Option String) : Prop := ∀ t, o = some t → t ≠ "-" ∧ Free '\t' t

structure Snapshot.Reads (x : Snapshot) : Prop where
  project : Written x.project
  environment : Written x.environment
  time : x.atMs ≤ maxNumber
  entries : ∀ e ∈ x.entries, e.Reads

/-- What a record must satisfy to be read back from its line. -/
def ConfigRecord.Reads : ConfigRecord → Prop
  | .definition d => d.Reads
  | .secretSaved x => x.Reads
  | .snapshot x => x.Reads

/-! ## Values -/

section

variable {name id : String} {value : Value} {flags : Flags} {setting : Setting} {e : Entry} {d : Def} {x : SecretSaved}
  {y : Snapshot} {r : ConfigRecord} {sep : Char} {f : List String} {o : Option String} {s : Scope}

theorem Flags.parse_code (used : flags.Used) : Flags.parse flags.code = .ok flags := by
  obtain ⟨build, runtime⟩ := flags
  cases build with
  | true => cases runtime <;> rfl
  | false =>
    cases runtime with
    | true => rfl
    | false => rcases used with used | used <;> cases used

theorem Flags.used_of_parse {code : String} (read : Flags.parse code = .ok flags) : flags.Used := by
  unfold Flags.parse at read
  split at read
  · cases read
    exact .inl rfl
  · cases read
    exact .inr rfl
  · cases read
    exact .inl rfl
  · cases read

theorem secretId_chars (accepted : checkSecretId id = .ok ()) : id ≠ "" ∧ ∀ c ∈ id.toList, secretIdChar c = true := by
  unfold checkSecretId at accepted
  split at accepted
  · cases accepted
  next good =>
    constructor
    · intro empty
      exact good (.inl (by rw [empty]; rfl))
    · intro c mem
      refine Classical.byContradiction fun foreign => good (.inr (.inr ?_))
      exact List.any_eq_true.mpr ⟨c, mem, by simpa using foreign⟩

theorem decValue_config {v : String} : decValue (encValue (.config v)) = .ok (.config v) := by
  simp only [decValue, encValue, stripPrefix_append, unhexText_hexText, need_some]
  rfl

theorem decValue_encValue (reads : value.Reads name) : decValue (encValue value) = .ok value := by
  cases value with
  | config v => exact decValue_config
  | secret r =>
    obtain ⟨accepted, version⟩ := reads
    have other : stripPrefix "c:" ("s:" ++ r.asStr) = none := by
      cases strips : stripPrefix "c:" ("s:" ++ r.asStr) with
      | none => rfl
      | some t =>
        have chars := congrArg (fun t : String => t.toList.head?) (eq_of_stripPrefix strips)
        simp only [String.toList_append] at chars
        exact absurd chars (by simp)
    have back := ReleaseConfig.parse_asStr (secretId_chars accepted).1 version
    simp only [decValue, encValue, other, stripPrefix_append, bind, Except.bind, back, accepted]
    rfl

theorem version_of_parse {text : String} {r : SecretRef} (parsed : SecretRef.parse text = .ok r) :
    r.version ≠ 0 := by
  obtain ⟨⟨id, v⟩, _, parsed⟩ := bind_ok parsed
  obtain ⟨n, number, parsed⟩ := bind_ok parsed
  split at parsed
  · cases parsed
  next real =>
    cases parsed
    intro zero
    have small : n ≤ 0xFFFFFFFF := parseUnsigned_le (need_ok number)
    have same := congrArg UInt32.toNat zero
    rw [UInt32.toNat_ofNat_of_lt' (Nat.lt_succ_of_le small)] at same
    exact real (.inr same)

/-- What a value that was read satisfies, apart from the form of a text. -/
theorem reads_of_decValue {text : String} (read : decValue text = .ok value) (form : checkText name value = .ok ()) :
    value.Reads name := by
  unfold decValue at read
  split at read
  next h _ =>
    obtain ⟨v, _, rfl⟩ := map_ok read
    exact form
  next =>
    split at read
    next text _ =>
      obtain ⟨r, parsed, read⟩ := bind_ok read
      obtain ⟨_, accepted, read⟩ := bind_ok read
      cases read
      exact ⟨accepted, version_of_parse parsed⟩
    next => cases read

/-! ## Definitions and entries -/

theorem checkText_ok (reads : value.Reads name) : checkText name value = .ok () := by
  cases value with
  | config v => exact reads
  | secret r => rfl

theorem decodeSetting_fields (reads : setting.Reads name) :
    ∃ what flags value, settingFields setting = [what, flags, value] ∧
      decodeSetting name what flags value = .ok setting := by
  cases setting with
  | unset => exact ⟨_, _, _, rfl, rfl⟩
  | set flags value =>
    obtain ⟨used, accepted⟩ := reads
    refine ⟨_, _, _, rfl, ?_⟩
    have other : ¬ ("set" = "unset") := by decide
    simp only [decodeSetting, if_neg other, if_true, decValue_encValue accepted, checkText_ok accepted,
      Flags.parse_code used, bind, Except.bind]
    rfl

theorem reads_of_decodeSetting {what flags value : String}
    (read : decodeSetting name what flags value = .ok setting) : setting.Reads name := by
  unfold decodeSetting at read
  split at read
  · split at read
    · cases read
    · cases read
      trivial
  · split at read
    · obtain ⟨v, parsed, read⟩ := bind_ok read
      obtain ⟨_, form, read⟩ := bind_ok read
      obtain ⟨f, used, read⟩ := bind_ok read
      cases read
      exact ⟨Flags.used_of_parse used, reads_of_decValue parsed form⟩
    · cases read

theorem decode_defFields (reads : d.Reads) : decode (defFields d) = .ok (.definition d) := by
  obtain ⟨what, flags, value, fields, back⟩ := decodeSetting_fields reads.setting
  have read : decodeDef [d.scope.slug, d.name, what, flags, value, d.atMs.repr] = .ok d := by
    simp only [decodeDef, reads.scope.parse_slug, reads.name, back, number_repr reads.time, bind, Except.bind]
    rfl
  have kind : decode (["cfgdef", "1", d.scope.slug, d.name] ++ [what, flags, value] ++ [d.atMs.repr]) =
      .definition <$> decodeDef [d.scope.slug, d.name, what, flags, value, d.atMs.repr] := rfl
  rw [defFields, fields, kind, read]
  rfl

theorem decode_savedFields (reads : x.Reads) : decode (savedFields x) = .ok (.secretSaved x) := by
  have bound : x.version.toNat ≤ 0xFFFFFFFF := Nat.le_of_lt_succ x.version.toNat_lt
  have read : decodeSaved ((savedFields x).drop 2) = .ok x := by
    simp only [savedFields, List.drop, decodeSaved, reads.id, parseUnsigned_repr bound, number_repr reads.time,
      need_some, bind, Except.bind, UInt32.ofNat_toNat]
    rfl
  have kind : decode (savedFields x) = .secretSaved <$> decodeSaved ((savedFields x).drop 2) := rfl
  rw [kind, read]
  rfl

theorem decodeSource_slug {source : Option Scope} (valid : ∀ s, source = some s → s.Valid) :
    decodeSource ((source.map Scope.slug).getD "cli") = .ok source := by
  cases source with
  | none => rfl
  | some s =>
    have real := (valid s rfl).parse_slug
    have other : s.slug ≠ "cli" := by
      intro same
      rw [same] at real
      have unknown : (Scope.parse "cli").isOk = false := by decide
      rw [real] at unknown
      cases unknown
    rw [Option.map_some, Option.getD_some, decodeSource, if_neg other, real]
    rfl

/-- What the separators around a text have in common. -/
structure Column (sep : Char) : Prop where
  name : Envvars.isFollowing sep = false
  id : secretIdChar sep = false
  digit : sep.isDigit = false
  hex : ∀ d : Fin 16, d.val.digitChar ≠ sep
  words : ∀ w ∈ ["cfgdef", "cfgsec", "cfgsnap", "1", "set", "unset", "-", "br", "b", "r", "cli", "c:", "s:", "@"],
    Free sep w

theorem column : ∀ sep ∈ ['|', ',', '\t'], Column sep := by
  intro sep mem
  have all : ∀ sep ∈ ['|', ',', '\t'], Envvars.isFollowing sep = false ∧ secretIdChar sep = false ∧
      sep.isDigit = false ∧ (∀ d : Fin 16, d.val.digitChar ≠ sep) ∧
      ∀ w ∈ ["cfgdef", "cfgsec", "cfgsnap", "1", "set", "unset", "-", "br", "b", "r", "cli", "c:", "s:", "@"],
        Free sep w := forall_mem_of_all (by decide)
  obtain ⟨name, id, digit, hex, words⟩ := all sep mem
  exact ⟨name, id, digit, hex, words⟩

namespace Column

theorem code (col : Column sep) : Free sep flags.code := by
  unfold Flags.code
  split
  · exact col.words _ (by decide)
  · exact col.words _ (by decide)
  · exact col.words _ (by decide)

theorem secretId (col : Column sep) (accepted : checkSecretId id = .ok ()) : Free sep id :=
  fun mem => by cases col.id.symm.trans ((secretId_chars accepted).2 sep mem)

theorem encValue (col : Column sep) (reads : value.Reads name) : Free sep (encValue value) := by
  intro mem
  cases value with
  | config v =>
    rw [encValue, String.toList_append] at mem
    exact (List.mem_append.mp mem).elim (col.words "c:" (by decide)) (hexText_free col.hex v)
  | secret r =>
    rw [encValue, SecretRef.asStr, String.toList_append, String.toList_append, String.toList_append] at mem
    rcases List.mem_append.mp mem with mem | mem
    · exact col.words "s:" (by decide) mem
    · rcases List.mem_append.mp mem with mem | mem
      · exact col.secretId reads.1 mem
      · rcases List.mem_append.mp mem with mem | mem
        · exact col.words "@" (by decide) mem
        · exact repr_free col.digit mem

theorem entryParts (col : Column sep) (reads : e.Reads) : ∀ t ∈ entryParts e, Free sep t := by
  have source : Free sep ((e.source.map Scope.slug).getD "cli") := by
    cases source : e.source with
    | none => exact col.words _ (by decide)
    | some s => exact (reads.source s source).slug_free col.id
  simp only [Config.entryParts, List.forall_mem_cons, List.not_mem_nil, false_implies, implies_true, and_true]
  exact ⟨Envvars.name_free reads.name col.name, col.code, source, col.encValue reads.value⟩

theorem settingFields (col : Column sep) (reads : setting.Reads name) : ∀ t ∈ settingFields setting, Free sep t := by
  cases setting with
  | unset =>
    simp only [Config.settingFields, List.forall_mem_cons, List.not_mem_nil, false_implies, implies_true, and_true]
    exact ⟨col.words _ (by decide), col.words _ (by decide), col.words _ (by decide)⟩
  | set flags value =>
    simp only [Config.settingFields, List.forall_mem_cons, List.not_mem_nil, false_implies, implies_true, and_true]
    exact ⟨col.words _ (by decide), col.code, col.encValue reads.2⟩

end Column

/-- No part of an entry contains a separator of the places it stands in. -/
theorem entryParts_free (reads : e.Reads) (foreign : sep ∈ ['|', ',', '\t']) : ∀ t ∈ entryParts e, Free sep t :=
  (column sep foreign).entryParts reads

theorem decodeEntry_parts (reads : e.Reads) : decodeEntry (joined '|' (entryParts e)) = .ok e := by
  have list : fields '|' (joined '|' (entryParts e)) = entryParts e :=
    fields_joined (entryParts_free reads (by decide)) (List.cons_ne_nil _ _)
  rw [decodeEntry, list]
  simp only [entryParts, decodeParts, reads.name, decValue_encValue reads.value, checkText_ok reads.value,
    Flags.parse_code reads.flags, decodeSource_slug reads.source, bind, Except.bind]
  rfl

theorem reads_of_decodeEntry {item : String} (read : decodeEntry item = .ok e) : e.Reads := by
  rw [decodeEntry] at read
  unfold decodeParts at read
  split at read
  next name flags source value _ =>
    obtain ⟨_, named, read⟩ := bind_ok read
    obtain ⟨v, parsed, read⟩ := bind_ok read
    obtain ⟨_, form, read⟩ := bind_ok read
    obtain ⟨f, used, read⟩ := bind_ok read
    obtain ⟨s, supplied, read⟩ := bind_ok read
    cases read
    refine ⟨named, Flags.used_of_parse used, ?_, reads_of_decValue parsed form⟩
    rintro scope rfl
    unfold decodeSource at supplied
    split at supplied
    · cases supplied
    · obtain ⟨scope', parsed, same⟩ := map_ok supplied
      cases same
      exact Scope.valid_of_parse parsed
  next => cases read

/-! ## Snapshots -/

theorem dash_getD (written : Written o) : dash (o.getD "-") = o := by
  cases o with
  | none => rfl
  | some t => exact if_neg (written t rfl).1

theorem csvList_entries {entries : List Entry} (reads : ∀ e ∈ entries, e.Reads) :
    Control.csvList (Control.csv (entries.map fun e => joined '|' (entryParts e))) =
      entries.map fun e => joined '|' (entryParts e) := by
  refine Control.csvList_csv (fun t mem => ?_) (Control.Real.of_ne fun t mem => ?_)
  · obtain ⟨e, inside, rfl⟩ := List.mem_map.mp mem
    intro comma
    rcases mem_joined comma with same | ⟨part, known, comma⟩
    · exact absurd same (by decide)
    · exact entryParts_free (reads e inside) (by decide) part known comma
  · obtain ⟨e, inside, rfl⟩ := List.mem_map.mp mem
    intro same
    have list : fields '|' (joined '|' (entryParts e)) = entryParts e :=
      fields_joined (entryParts_free (reads e inside) (by decide)) (List.cons_ne_nil _ _)
    have one : (fields '|' "-").length = 1 := by decide
    rw [same] at list
    rw [list] at one
    cases one

theorem decode_snapshotFields (reads : y.Reads) : decode (snapshotFields y) = .ok (.snapshot y) := by
  have entries : (y.entries.map fun e => joined '|' (entryParts e)).mapM decodeEntry = .ok y.entries :=
    mapM_map_ok fun e mem => decodeEntry_parts (reads.entries e mem)
  have read : decodeSnapshot ((snapshotFields y).drop 2) = .ok y := by
    simp only [snapshotFields, List.drop, decodeSnapshot, csvList_entries reads.entries, entries, readId_asStr,
      number_repr reads.time, dash_getD reads.project, dash_getD reads.environment, bind, Except.bind]
    rfl
  have kind : decode (snapshotFields y) = .snapshot <$> decodeSnapshot ((snapshotFields y).drop 2) := rfl
  rw [kind, read]
  rfl

theorem written_dash {t : String} (free : Free '\t' t) : Written (dash t) := by
  intro u some
  unfold dash at some
  split at some
  · cases some
  next other =>
    cases some
    exact ⟨other, free⟩

theorem reads_of_decodeSnapshot (free : ∀ t ∈ f, Free '\t' t) (read : decodeSnapshot f = .ok y) : y.Reads := by
  unfold decodeSnapshot at read
  split at read
  next deployment app project environment atMs entries =>
    obtain ⟨es, list, read⟩ := bind_ok read
    obtain ⟨_, _, read⟩ := bind_ok read
    obtain ⟨_, _, read⟩ := bind_ok read
    obtain ⟨n, time, read⟩ := bind_ok read
    cases read
    refine ⟨written_dash (free _ (by simp)), written_dash (free _ (by simp)), parseUnsigned_le (need_ok time), ?_⟩
    intro e mem
    obtain ⟨item, _, parsed⟩ := mem_of_mapM list e mem
    exact reads_of_decodeEntry parsed
  next => cases read

/-! ## Records -/

theorem reads_of_decodeDef (read : decodeDef f = .ok d) : d.Reads := by
  unfold decodeDef at read
  split at read
  next scope name what flags value atMs =>
    obtain ⟨s, parsed, read⟩ := bind_ok read
    obtain ⟨_, named, read⟩ := bind_ok read
    obtain ⟨setting, set, read⟩ := bind_ok read
    obtain ⟨n, time, read⟩ := bind_ok read
    cases read
    exact ⟨Scope.valid_of_parse parsed, named, reads_of_decodeSetting set, parseUnsigned_le (need_ok time)⟩
  next => cases read

theorem reads_of_decodeSaved (read : decodeSaved f = .ok x) : x.Reads := by
  unfold decodeSaved at read
  split at read
  next id version atMs =>
    obtain ⟨_, accepted, read⟩ := bind_ok read
    obtain ⟨v, _, read⟩ := bind_ok read
    obtain ⟨n, time, read⟩ := bind_ok read
    cases read
    exact ⟨accepted, parseUnsigned_le (need_ok time)⟩
  next => cases read

/-- A record that was read from fields can be read back from its own. -/
theorem reads_of_decode (free : ∀ t ∈ f, Free '\t' t) (read : decode f = .ok r) : r.Reads := by
  unfold decode at read
  split at read
  · cases read
  · split at read
    · obtain ⟨d, parsed, rfl⟩ := map_ok read
      exact reads_of_decodeDef parsed
    · obtain ⟨x, parsed, rfl⟩ := map_ok read
      exact reads_of_decodeSaved parsed
    · obtain ⟨y, parsed, rfl⟩ := map_ok read
      exact reads_of_decodeSnapshot (fun t mem => free t (List.mem_of_mem_drop mem)) parsed
    · cases read

theorem decode_recordFields (reads : r.Reads) : decode (recordFields r) = .ok r := by
  cases r with
  | definition d => exact decode_defFields reads
  | secretSaved x => exact decode_savedFields reads
  | snapshot y => exact decode_snapshotFields reads

/-! ## Lines -/

/-- No field of a record contains a tab. -/
theorem recordFields_free (reads : r.Reads) : ∀ t ∈ recordFields r, Free '\t' t := by
  have col : Column '\t' := column '\t' (by decide)
  cases r with
  | definition d =>
    have last : ∀ t ∈ [d.atMs.repr], Free '\t' t := by
      intro t mem
      rw [List.mem_singleton.mp mem]
      exact repr_free (by decide)
    have first : ∀ t ∈ ["cfgdef", "1", d.scope.slug, d.name], Free '\t' t := by
      simp only [List.forall_mem_cons, List.not_mem_nil, false_implies, implies_true, and_true]
      exact ⟨col.words _ (by decide), col.words _ (by decide), reads.scope.slug_free col.id,
        Envvars.name_free reads.name col.name⟩
    exact List.forall_mem_append.mpr ⟨List.forall_mem_append.mpr ⟨first, col.settingFields reads.setting⟩, last⟩
  | secretSaved x =>
    simp only [recordFields, savedFields, List.forall_mem_cons, List.not_mem_nil, false_implies, implies_true,
      and_true]
    exact ⟨col.words _ (by decide), col.words _ (by decide), col.secretId reads.id, repr_free (by decide),
      repr_free (by decide)⟩
  | snapshot y =>
    have optional : ∀ {o : Option String}, Written o → Free '\t' (o.getD "-") := by
      intro o written
      cases o with
      | none => exact col.words _ (by decide)
      | some t => exact (written t rfl).2
    have entries : Free '\t' (Control.csv (y.entries.map fun e => joined '|' (entryParts e))) := by
      unfold Control.csv
      split
      · exact col.words _ (by decide)
      · intro tab
        rcases mem_joined tab with same | ⟨t, inside, tab⟩
        · exact absurd same (by decide)
        · obtain ⟨e, known, rfl⟩ := List.mem_map.mp inside
          rcases mem_joined tab with same | ⟨part, inside, tab⟩
          · exact absurd same (by decide)
          · exact col.entryParts (reads.entries e known) part inside tab
    simp only [recordFields, snapshotFields, List.forall_mem_cons, List.not_mem_nil, false_implies, implies_true,
      and_true]
    exact ⟨col.words _ (by decide), col.words _ (by decide), Id.asStr_free (by decide), Id.asStr_free (by decide),
      optional reads.project, optional reads.environment, repr_free (by decide), entries⟩

variable {β : Type} {others : List String → Except String β} {line : String} {b : ConfigRecord ⊕ β}

/-- A line that is read as one of the other records has a body that is read so. -/
theorem body_of_decodeLine {γ : Type} {others : List String → Except String γ} {b : γ}
    (read : decodeLine others line = .ok (.other b)) : ∃ body, others (fields '\t' body) = .ok b := by
  obtain ⟨⟨crc, body⟩, _, read⟩ := bind_ok read
  refine ⟨body, ?_⟩
  dsimp only at read
  split at read
  · obtain ⟨_, _, read⟩ := bind_ok read
    obtain ⟨_, _, same⟩ := map_ok read
    cases same
  · split at read
    · obtain ⟨_, _, read⟩ := bind_ok read
      obtain ⟨_, _, same⟩ := map_ok read
      cases same
    · split at read
      · obtain ⟨_, _, read⟩ := bind_ok read
        obtain ⟨_, _, same⟩ := map_ok read
        cases same
      · split at read
        · obtain ⟨_, _, read⟩ := bind_ok read
          obtain ⟨a, accepted, same⟩ := map_ok read
          cases same
          exact accepted
        · obtain ⟨_, _, same⟩ := map_ok read
          cases same

/-- A configuration record that was read from a line can be read back. -/
theorem reads_of_decodeLine (read : decodeLine (decodeOther others) line = .ok (.other (.inl r))) : r.Reads := by
  obtain ⟨body, accepted⟩ := body_of_decodeLine read
  unfold decodeOther at accepted
  split at accepted
  · obtain ⟨r', parsed, same⟩ := map_ok accepted
    cases same
    exact reads_of_decode (fun t mem => fields_free mem) parsed
  · obtain ⟨_, _, same⟩ := map_ok accepted
    cases same

theorem decodeLine_encode (reads : r.Reads) :
    decodeLine (decodeOther others) (encode r) = .ok (.other (.inl r)) := by
  have some : recordFields r ≠ [] := by cases r <;> exact List.cons_ne_nil _ _
  have list := fields_joined (recordFields_free reads) some
  rw [decodeLine, encode, unframe_frame]
  simp only [bind, Except.bind, checked_frame, list, decodeOther, decode_recordFields reads]
  cases r <;> rfl

/-- A record is read back from its line exactly when its texts pass the decoder's checks. -/
theorem decodeLine_encode_iff :
    decodeLine (decodeOther others) (encode r) = .ok (.other (.inl r)) ↔ r.Reads :=
  ⟨reads_of_decodeLine, decodeLine_encode⟩

end

end Harpoon.Config
