import Harpoon.Journal.Release

/-!
# Pinned configurations and their text

A pinned configuration is read back from its field when the code's own checks accept it: an exact image
id, a valid environment and secrets in canonical order, and numbers that a signed field holds.
-/

namespace Harpoon.Deploy.ReleaseConfig

open Wire Journal

/-- Does a signed 64-bit field hold the number? -/
structure Signed (i : Int) : Prop where
  least : -(maxSigned + 1 : Int) ≤ i
  most : i ≤ maxSigned

/-- What a configuration must satisfy to be read back. -/
structure Pinnable (c : ReleaseConfig) : Prop where
  image : (stripPrefix "sha256:" c.imageId).isSome = true
  interval : c.health.intervalMs ≤ maxSigned
  deadline : c.health.startupDeadlineMs ≤ maxSigned
  memory : Signed c.memoryBytes
  cpus : Signed c.nanoCpus
  pids : Signed c.pids
  env : Envvars.validate c.env = .ok c.env
  names : ∀ p ∈ c.secrets, Envvars.checkName p.1 = .ok ()
  references : ∀ p ∈ c.secrets, p.2.id ≠ "" ∧ p.2.version ≠ 0
  ordered : increasing (c.secrets.map (·.1)) = true
  apart : (c.secrets.any fun s => c.env.any fun p => p.1 = s.1) = false
  snapshot : c.snapshot ≠ some ""
  build : c.build ≠ some ""

/-- What of it does not concern the variables. -/
structure Measured (c : ReleaseConfig) : Prop where
  image : (stripPrefix "sha256:" c.imageId).isSome = true
  interval : c.health.intervalMs ≤ maxSigned
  deadline : c.health.startupDeadlineMs ≤ maxSigned
  memory : Signed c.memoryBytes
  cpus : Signed c.nanoCpus
  pids : Signed c.pids

theorem Pinnable.measured {c : ReleaseConfig} (p : Pinnable c) : Measured c :=
  ⟨p.image, p.interval, p.deadline, p.memory, p.cpus, p.pids⟩

section

variable {c : ReleaseConfig} {key value what : String} {ps : List String} {i : Int} {n : Nat}

theorem part_keyed : part key (keyed key value :: ps) = .ok (value, ps) := by
  have text : keyed key value = (key ++ String.singleton '=') ++ value := by rw [keyed, String.append_assoc]
  rw [part, text, stripPrefix_append]

@[simp] theorem text_hexText : text what (hexText value) = .ok value := by
  rw [text, unhexText_hexText]
  rfl

theorem num_signedText (fits : Signed i) : num what (signedText i) = .ok i := by
  rw [num, parseSigned_signedText fits.least fits.most]
  rfl

theorem num_repr (fits : n ≤ maxSigned) : num what n.repr = .ok (n : Int) :=
  num_signedText (i := .ofNat n) ⟨by show _ ≤ (n : Int); omega, Int.ofNat_le.mpr fits⟩

theorem readExpect_expectStr (e : StatusClass) : readExpect (expectStr e) = .ok e := by cases e <;> rfl

/-- What the parts that every version has read as. -/
def base (c : ReleaseConfig) : Base where
  imageId := c.imageId
  imageTag := c.imageTag
  containerPort := c.containerPort.toNat
  hostPort := c.hostPort.toNat
  path := c.health.path
  expect := c.health.expect
  interval := c.health.intervalMs
  consecutiveOk := c.health.consecutiveOk.toNat
  deadline := c.health.startupDeadlineMs
  memoryBytes := c.memoryBytes
  nanoCpus := c.nanoCpus
  pids := c.pids

theorem readBase_baseParts (p : Measured c) : readBase (c.baseParts ++ ps) = .ok (c.base, ps) := by
  have short : ∀ {n : Nat}, n < 65536 → n ≤ maxSigned := fun small => Nat.le_trans (Nat.le_of_lt small) (by decide)
  have port₁ := short c.containerPort.toNat_lt
  have port₂ := short c.hostPort.toNat_lt
  have ok := short (Nat.lt_of_lt_of_le c.health.consecutiveOk.toNat_lt (by decide : 2 ^ 8 ≤ 65536))
  simp only [readBase, baseParts, List.cons_append, List.nil_append, part_keyed, bind, Except.bind, text_hexText,
    num_repr port₁, num_repr port₂, readExpect_expectStr, num_repr p.interval, num_repr ok, num_repr p.deadline,
    num_signedText p.memory, num_signedText p.cpus, num_signedText p.pids]
  rfl

/-! ## Environment and secrets -/

theorem keyed_ne_empty : keyed key value ≠ "" := by
  intro empty
  have equals : '=' ∈ (keyed key value).toList := by simp [keyed]
  rw [empty] at equals
  exact absurd equals (by decide)

theorem splitOnce_keyed (free : Free '=' key) : splitOnce '=' (keyed key value) = some (key, value) :=
  splitOnce_append free

/-- Entries are read back from their list. -/
theorem entries_joined {l : List (String × String)} :
    entries (joined ',' (l.map fun p => entry p.1 p.2)) = l.map fun p => entry p.1 p.2 := by
  have comma : ∀ f ∈ l.map (fun p => entry p.1 p.2), Free ',' f := by
    intro f mem
    obtain ⟨p, _, rfl⟩ := List.mem_map.mp mem
    exact hexText_free (by decide) _
  have some : ∀ f ∈ l.map (fun p => entry p.1 p.2), decide (f ≠ "") = true := by
    intro f mem
    obtain ⟨p, _, rfl⟩ := List.mem_map.mp mem
    exact decide_eq_true (hexText_ne_empty keyed_ne_empty)
  cases l with
  | nil => decide
  | cons p l =>
    rw [entries, fields_joined comma (by simp)]
    exact List.filter_eq_self.mpr some

theorem readPair_entry {p : String × String} (accepted : Free '=' p.1) : readPair (entry p.1 p.2) = .ok p := by
  rw [readPair, entry, unhexText_hexText]
  simp only [need_some, bind, Except.bind, splitOnce_keyed accepted]

theorem checkPairs_names {seen : List String} {pairs : List (String × String)}
    (accepted : Envvars.checkPairs seen pairs = .ok ()) : ∀ p ∈ pairs, Envvars.checkName p.1 = .ok () := by
  induction pairs generalizing seen with
  | nil => intro p mem; cases mem
  | cons q pairs ih =>
    obtain ⟨n, v⟩ := q
    simp only [Envvars.checkPairs, bind, Except.bind] at accepted
    cases name : Envvars.checkName n with
    | error e => rw [name] at accepted; cases accepted
    | ok _ =>
      rw [name] at accepted
      cases value : Envvars.checkValue n v with
      | error e => rw [value] at accepted; cases accepted
      | ok _ =>
        rw [value] at accepted
        dsimp only at accepted
        intro p mem
        rcases List.mem_cons.mp mem with rfl | mem
        · exact name
        · split at accepted
          · cases accepted
          · exact ih accepted p mem

theorem validate_names {pairs out : List (String × String)} (accepted : Envvars.validate pairs = .ok out) :
    ∀ p ∈ pairs, Envvars.checkName p.1 = .ok () := by
  unfold Envvars.validate at accepted
  split at accepted
  · cases accepted
  · cases checked : Envvars.checkPairs [] pairs with
    | error e =>
      rw [checked] at accepted
      cases accepted
    | ok _ => exact checkPairs_names checked

theorem mapM_readPair (names : ∀ p ∈ c.env, Free '=' p.1) :
    (c.env.map fun p => entry p.1 p.2).mapM readPair = .ok c.env :=
  mapM_map_ok fun q mem => readPair_entry (names q mem)

theorem readEnv_entries {version : String} (p : Pinnable c) (some : c.env ≠ [] ∨ version ≠ "v2") :
    readEnv version (joined ',' (c.env.map fun p => entry p.1 p.2)) = .ok c.env := by
  have pairs := mapM_readPair fun q mem => Envvars.name_free (validate_names p.env q mem) (by decide)
  have filled : ¬ ((joined ',' (c.env.map fun p => entry p.1 p.2)).isEmpty = true ∧ version = "v2") := by
    rintro ⟨empty, old⟩
    rcases some with some | new
    · refine some ?_
      have none := entries_joined (l := c.env)
      rw [String.isEmpty_iff.mp empty] at none
      exact List.map_eq_nil_iff.mp (none.symm.trans (by decide))
    · exact new old
  rw [readEnv, if_neg filled, entries_joined]
  simp only [bind, Except.bind, pairs, p.env, mapError_ok]
  rw [if_neg fun differs => differs rfl]

theorem parse_asStr {r : SecretRef} (some : r.id ≠ "") (version : r.version ≠ 0) :
    SecretRef.parse r.asStr = .ok r := by
  have bound : r.version.toNat ≤ 0xFFFFFFFF := Nat.le_of_lt_succ r.version.toNat_lt
  have real : ¬ (r.id.isEmpty = true ∨ r.version.toNat = 0) := by
    rintro (empty | zero)
    · exact some (String.isEmpty_iff.mp empty)
    · exact version (UInt32.toNat_inj.mp zero)
  rw [SecretRef.parse, SecretRef.asStr, rsplitOnce_append (repr_free (by decide))]
  simp only [need_some, bind, Except.bind, parseUnsigned_repr bound, if_neg real, UInt32.ofNat_toNat]

theorem readSecret_entry {q : String × SecretRef} (p : Pinnable c) (mem : q ∈ c.secrets) :
    readSecret (entry q.1 q.2.asStr) = .ok q := by
  have name := p.names q mem
  have ref := parse_asStr (p.references q mem).1 (p.references q mem).2
  rw [readSecret, entry, unhexText_hexText]
  simp only [need_some, bind, Except.bind, splitOnce_keyed (Envvars.name_free name (by decide)), name, ref,
    mapError_ok]
  rfl

theorem readSecrets_entries (p : Pinnable c) :
    readSecrets c.env (joined ',' (c.secrets.map fun p => entry p.1 p.2.asStr)) = .ok c.secrets := by
  have list := entries_joined (l := c.secrets.map fun p => (p.1, p.2.asStr))
  rw [List.map_map] at list
  have pairs : (c.secrets.map fun p => entry p.1 p.2.asStr).mapM readSecret = .ok c.secrets :=
    mapM_map_ok fun q mem => readSecret_entry p mem
  have list : entries (joined ',' (c.secrets.map fun p => entry p.1 p.2.asStr)) =
      c.secrets.map fun p => entry p.1 p.2.asStr := list
  rw [readSecrets, list]
  simp only [bind, Except.bind, pairs, p.ordered, p.apart, Bool.not_true, Bool.false_eq_true, if_false]

theorem readOptional_text {o : Option String} (some : o ≠ some "") :
    readOptional what ((o.map hexText).getD "") = .ok o := by
  cases o with
  | none => rfl
  | some v =>
    have filled : ¬ (hexText v).isEmpty = true := fun empty =>
      hexText_ne_empty (fun none => some (none ▸ rfl)) (String.isEmpty_iff.mp empty)
    rw [Option.map_some, Option.getD_some, readOptional, if_neg filled, unhexText_hexText]
    rfl

/-! ## The whole configuration -/

theorem within_ofNat {bound : Nat} {why : String} (fits : n ≤ bound) : within bound why (n : Int) = .ok n := by
  rw [within, if_pos ⟨Int.natCast_nonneg n, Int.ofNat_le.mpr fits⟩, Int.toNat_natCast]

theorem assemble_base (p : Pinnable c) :
    assemble c.base c.env ⟨c.secrets, c.snapshot, c.build, []⟩ = .ok c := by
  have image : ¬ (stripPrefix "sha256:" c.base.imageId).isNone = true := by
    have strips : (stripPrefix "sha256:" c.base.imageId).isSome = true := p.image
    rw [Option.isNone_iff_eq_none]
    intro none
    rw [none] at strips
    cases strips
  have port : ∀ {u : UInt16}, u.toNat ≤ 65535 := fun {u} => Nat.le_of_lt_succ u.toNat_lt
  have ok : c.health.consecutiveOk.toNat ≤ 255 := Nat.le_of_lt_succ c.health.consecutiveOk.toNat_lt
  have large : maxSigned ≤ maxNumber := by decide
  rw [assemble, if_neg fun other => other rfl, if_neg image]
  simp only [base, within_ofNat (port (u := c.containerPort)), within_ofNat (port (u := c.hostPort)),
    within_ofNat (Nat.le_trans p.interval large), within_ofNat ok, within_ofNat (Nat.le_trans p.deadline large),
    bind, Except.bind, UInt16.ofNat_toNat, UInt8.ofNat_toNat]
  rfl

theorem free_keyed {sep : Char} (key' : Free sep key) (equals : sep ≠ '=') (value' : Free sep value) :
    Free sep (keyed key value) := by
  intro mem
  rw [keyed, String.toList_append, String.toList_append, String.toList_singleton] at mem
  rcases List.mem_append.mp mem with mem | mem
  · exact key' mem
  · rcases List.mem_cons.mp mem with same | mem
    · exact equals same
    · exact value' mem

/-- What the separators around a part have in common. -/
structure Outer (sep : Char) : Prop where
  hex : ∀ d : Fin 16, d.val.digitChar ≠ sep
  digit : sep.isDigit = false
  sign : sep ≠ '-'
  equals : sep ≠ '='
  comma : sep ≠ ','
  words : ∀ w ∈ ["v1", "v2", "v3", "img", "tag", "cport", "hport", "path", "expect", "interval", "ok", "deadline",
    "mem", "cpu", "pids", "env", "sec", "snap", "build", "2xx", "lt500", ""], Free sep w

theorem outer : ∀ sep ∈ ['\t', '\n', ';', '\x00'], Outer sep := by
  intro sep mem
  have all : ∀ sep ∈ ['\t', '\n', ';', '\x00'], (∀ d : Fin 16, d.val.digitChar ≠ sep) ∧ sep.isDigit = false ∧ sep ≠ '-' ∧
      sep ≠ '=' ∧ sep ≠ ',' ∧ ∀ w ∈ ["v1", "v2", "v3", "img", "tag", "cport", "hport", "path", "expect", "interval",
        "ok", "deadline", "mem", "cpu", "pids", "env", "sec", "snap", "build", "2xx", "lt500", ""], Free sep w :=
    forall_mem_of_all (by decide)
  obtain ⟨hex, digit, sign, equals, comma, words⟩ := all sep mem
  exact ⟨hex, digit, sign, equals, comma, words⟩

section

variable {sep : Char}

theorem Outer.keyed (o : Outer sep) (word : Free sep key) (value' : Free sep value) : Free sep (ReleaseConfig.keyed key value) :=
  free_keyed word o.equals value'

theorem Outer.entries (o : Outer sep) {l : List (String × String)} :
    Free sep (joined ',' (l.map fun p => entry p.1 p.2)) := by
  intro mem
  rcases mem_joined mem with same | ⟨f, inside, mem⟩
  · exact o.comma same
  · obtain ⟨p, _, rfl⟩ := List.mem_map.mp inside
    exact hexText_free o.hex _ mem

theorem Outer.baseParts (o : Outer sep) : ∀ f ∈ c.baseParts, Free sep f := by
  have expect : Free sep (expectStr c.health.expect) := by
    cases c.health.expect <;> exact o.words _ (by decide)
  simp only [ReleaseConfig.baseParts, List.forall_mem_cons, List.not_mem_nil, false_implies, implies_true, and_true]
  exact ⟨o.keyed (o.words _ (by decide)) (hexText_free o.hex _), o.keyed (o.words _ (by decide)) (hexText_free o.hex _),
    o.keyed (o.words _ (by decide)) (repr_free o.digit), o.keyed (o.words _ (by decide)) (repr_free o.digit),
    o.keyed (o.words _ (by decide)) (hexText_free o.hex _), o.keyed (o.words _ (by decide)) expect,
    o.keyed (o.words _ (by decide)) (repr_free o.digit), o.keyed (o.words _ (by decide)) (repr_free o.digit),
    o.keyed (o.words _ (by decide)) (repr_free o.digit),
    o.keyed (o.words _ (by decide)) (signedText_free o.digit o.sign),
    o.keyed (o.words _ (by decide)) (signedText_free o.digit o.sign),
    o.keyed (o.words _ (by decide)) (signedText_free o.digit o.sign)⟩

theorem Outer.optional (o : Outer sep) {v : Option String} : Free sep ((v.map hexText).getD "") := by
  cases v with
  | none => exact o.words _ (by decide)
  | some v => exact hexText_free o.hex v

theorem Outer.envPart (o : Outer sep) : Free sep c.envPart := o.keyed (o.words _ (by decide)) o.entries

theorem Outer.secPart (o : Outer sep) : Free sep c.secPart := by
  have list := o.entries (l := c.secrets.map fun p => (p.1, p.2.asStr))
  rw [List.map_map] at list
  exact o.keyed (o.words _ (by decide)) list

/-- No part of a configuration contains a separator of the places it stands in. -/
theorem Outer.parts (o : Outer sep) : ∀ f ∈ c.parts, Free sep f := by
  have env : ∀ f ∈ [c.envPart], Free sep f := by
    intro f mem
    rw [List.mem_singleton.mp mem]
    exact o.envPart
  have extras : ∀ f ∈ [c.envPart, c.secPart, ReleaseConfig.keyed "snap" ((c.snapshot.map hexText).getD ""),
      ReleaseConfig.keyed "build" ((c.build.map hexText).getD "")], Free sep f := by
    simp only [List.forall_mem_cons, List.not_mem_nil, false_implies, implies_true, and_true]
    exact ⟨o.envPart, o.secPart, o.keyed (o.words _ (by decide)) o.optional,
      o.keyed (o.words _ (by decide)) o.optional⟩
  unfold ReleaseConfig.parts
  split
  · split
    · exact List.forall_mem_cons.mpr ⟨o.words _ (by decide), o.baseParts⟩
    · exact List.forall_mem_cons.mpr ⟨o.words _ (by decide), List.forall_mem_append.mpr ⟨o.baseParts, env⟩⟩
  · exact List.forall_mem_cons.mpr ⟨o.words _ (by decide), List.forall_mem_append.mpr ⟨o.baseParts, extras⟩⟩

theorem Outer.encode (o : Outer sep) (other : sep ≠ ';') : Free sep c.encode := by
  intro mem
  rcases mem_joined mem with same | ⟨f, inside, mem⟩
  · exact other same
  · exact o.parts f inside mem

end

theorem plain_encode : Journal.Plain c.encode where
  tab := (outer '\t' (by decide)).encode (by decide)
  newline := (outer '\n' (by decide)).encode (by decide)

/-- The parts of a configuration read as the configuration. -/
theorem readParts_parts (p : Pinnable c) :
    ∃ version rest, c.parts = version :: rest ∧ (version = "v1" ∨ version = "v2" ∨ version = "v3") ∧
      readParts version rest = .ok c := by
  unfold parts
  split
  next simple =>
    obtain ⟨secrets, snapshot, build⟩ := simple
    have whole := assemble_base p
    rw [secrets, snapshot, build] at whole
    split
    next none =>
      rw [none] at whole
      refine ⟨"v1", c.baseParts, rfl, .inl rfl, ?_⟩
      have read : readBase (c.baseParts ++ []) = .ok (c.base, []) := readBase_baseParts p.measured
      rw [List.append_nil] at read
      rw [readParts, read]
      exact whole
    next some =>
      refine ⟨"v2", c.baseParts ++ [c.envPart], rfl, .inr (.inl rfl), ?_⟩
      have part : readEnvPart "v2" [c.envPart] = .ok (c.env, []) := by
        rw [readEnvPart, if_pos (by decide), envPart, part_keyed]
        simp only [bind, Except.bind, readEnv_entries p (.inl some)]
        rfl
      rw [readParts, readBase_baseParts p.measured]
      simp only [bind, Except.bind, part]
      exact whole
  next extra =>
    refine ⟨"v3", _, rfl, .inr (.inr rfl), ?_⟩
    have env : ∀ ps, readEnvPart "v3" (c.envPart :: ps) = .ok (c.env, ps) := by
      intro ps
      rw [readEnvPart, if_pos (by decide), envPart, part_keyed]
      simp only [bind, Except.bind, readEnv_entries p (.inr (by decide : "v3" ≠ "v2"))]
      rfl
    have extras : readExtras "v3" c.env [c.secPart, keyed "snap" ((c.snapshot.map hexText).getD ""),
        keyed "build" ((c.build.map hexText).getD "")] = .ok ⟨c.secrets, c.snapshot, c.build, []⟩ := by
      rw [readExtras, if_pos rfl, secPart, part_keyed]
      simp only [bind, Except.bind, readSecrets_entries p, part_keyed, readOptional_text p.snapshot,
        readOptional_text p.build, if_neg extra]
    rw [readParts, readBase_baseParts p.measured]
    simp only [bind, Except.bind, env, extras]
    exact assemble_base p

theorem decode_encode (p : Pinnable c) : decode c.encode = .ok c := by
  obtain ⟨version, rest, parts, known, read⟩ := readParts_parts p
  have list : fields ';' c.encode = version :: rest := by
    have some : c.parts ≠ [] := by rw [parts]; exact List.cons_ne_nil _ _
    rw [encode, fields_joined (outer ';' (by decide)).parts some, parts]
  have old : ¬ (version ≠ "v1" ∧ version ≠ "v2" ∧ version ≠ "v3") := by
    rintro ⟨one, two, three⟩
    rcases known with same | same | same
    · exact one same
    · exact two same
    · exact three same
  rw [decode, list]
  exact (if_neg old).trans read

/-- The environment of a configuration that is read passes the check of whole sets. -/
theorem validate_of_decode {d : ReleaseConfig} (m : Measured c) (names : ∀ p ∈ c.env, Free '=' p.1)
    (some : c.env ≠ []) (read : decode c.encode = .ok d) : Envvars.validate c.env = .ok c.env := by
  obtain ⟨version, more, parts, known⟩ : ∃ version more, c.parts = version :: (c.baseParts ++ (c.envPart :: more)) ∧
      (version = "v2" ∨ version = "v3") := by
    unfold ReleaseConfig.parts
    split
    · exact ⟨"v2", [], rfl, .inl rfl⟩
    · exact ⟨"v3", _, rfl, .inr rfl⟩
  have list : fields ';' c.encode = version :: (c.baseParts ++ (c.envPart :: more)) := by
    rw [encode, fields_joined (outer ';' (by decide)).parts (by rw [parts]; exact List.cons_ne_nil _ _), parts]
  have read : readParts version (c.baseParts ++ (c.envPart :: more)) = .ok d := by
    unfold decode at read
    rw [list] at read
    dsimp only at read
    split at read
    · cases read
    · exact read
  obtain ⟨⟨base, ps⟩, first, read⟩ := bind_ok read
  rw [readBase_baseParts m] at first
  cases first
  obtain ⟨⟨env, ps⟩, second, _⟩ := bind_ok read
  have versions : version = "v2" ∨ version = "v3" := known
  rw [readEnvPart, if_pos versions, envPart, part_keyed] at second
  obtain ⟨⟨raw, rest⟩, same, second⟩ := bind_ok second
  cases same
  obtain ⟨canonical, checked, _⟩ := bind_ok second
  unfold readEnv at checked
  split at checked
  · cases checked
  · obtain ⟨pairs, entries, checked⟩ := bind_ok checked
    rw [entries_joined, mapM_readPair names] at entries
    cases entries
    obtain ⟨sorted, valid, checked⟩ := bind_ok checked
    split at checked
    · cases checked
    next same =>
      cases whole : Envvars.validate c.env with
      | error e =>
        rw [whole] at valid
        cases valid
      | ok out =>
        rw [whole] at valid
        cases valid
        exact congrArg Except.ok (Classical.byContradiction fun other => same other)

end

end Harpoon.Deploy.ReleaseConfig
