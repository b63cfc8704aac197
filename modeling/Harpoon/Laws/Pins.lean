import Harpoon.Laws.ConfigStore

/-!
# Pins of resolved configurations

The preflight accepts more variables than a pin can hold. What is planned for a release is within what the pin
can hold, because the variables are checked again before anything is planned, and it is read back from the pin.
-/

namespace Harpoon.Config

open Deploy Wire Journal

section

variable {β : Type} {others : List String → Except String β} {lines : List String} {s : ConfigState} {q : Request}
  {p : Prepared} {dep : DeploymentId} {c r : ReleaseConfig}

/-- The variables of the container, each valid and in the order of their names. -/
theorem runtimeEnv_valid (prepared : prepare q s = .ok p) :
    (∀ v ∈ p.runtimeEnv, Envvars.checkName v.1 = .ok () ∧ Envvars.checkValue v.1 v.2 = .ok ()) ∧
      p.runtimeEnv.Pairwise fun a b => a.1 < b.1 := by
  obtain ⟨sound, _, _, env, _⟩ := prepare_entries prepared
  rw [env]
  refine ⟨fun v mem => ?_, ordered_pickConfig sound.ordered⟩
  obtain ⟨e, inside, named, value⟩ := mem_pickConfig mem
  have name := sound.name e inside
  have text := sound.text e inside
  rw [value] at text
  rw [named] at name text
  exact ⟨name, text⟩

variable (dep c) in
theorem release_env (prepared : prepare q s = .ok p) : (p.release dep c).env = p.runtimeEnv := by
  obtain ⟨valid, sorted⟩ := runtimeEnv_valid prepared
  exact cfgEnvPairs_dockerForm (fun v mem => Envvars.name_free (valid v mem).1 (by decide)) sorted

variable (dep c) in
theorem validate_release (prepared : prepare q s = .ok p) :
    Envvars.validate (p.release dep c).env = .ok (p.release dep c).env ↔
      p.runtimeEnv.length ≤ Envvars.maxVariables ∧ Envvars.totalBytes p.runtimeEnv ≤ Envvars.maxTotalBytes := by
  rw [release_env dep c prepared]
  exact validate_iff (runtimeEnv_valid prepared).1 (runtimeEnv_valid prepared).2

/-- A set of valid variables in order is refused or left as it is. -/
theorem validate_eq (prepared : prepare q s = .ok p) {out : List (String × String)}
    (accepted : Envvars.validate (p.release dep c).env = .ok out) : out = (p.release dep c).env := by
  have sorted := mergeSort_pairs (runtimeEnv_valid prepared).2
  rw [← release_env dep c prepared] at sorted
  unfold Envvars.validate at accepted
  split at accepted
  · cases accepted
  · obtain ⟨_, _, accepted⟩ := bind_ok accepted
    split at accepted
    · cases accepted
    · cases accepted
      exact sorted

/-- The release that is planned can be pinned, if what does not concern its variables can. -/
theorem pinnable_release (opened : reopen others lines = .ok s) (prepared : prepare q s = .ok p)
    (measured : c.Measured) (valid : Envvars.validate (p.release dep c).env = .ok (p.release dep c).env) :
    (p.release dep c).Pinnable := by
  obtain ⟨sound, _, _, env, secrets, rest, built⟩ := prepare_entries prepared
  have clean := clean_of_reopen opened
  have apart : ((p.release dep c).secrets.any fun s => (p.release dep c).env.any fun v => v.1 = s.1) = false := by
    rw [release_env _ _ prepared, env]
    show (p.runtimeSecrets.any fun s => (runtimeEnv p.entries).any fun v => v.1 = s.1) = false
    rw [secrets]
    exact apart_pick sound.ordered
  refine ⟨measured.image, measured.interval, measured.deadline, measured.memory, measured.cpus, measured.pids, valid,
    fun v mem => ?_, fun v mem => ?_, ?_, apart, ?_, ?_⟩
  · have mem : v ∈ p.runtimeSecrets := mem
    rw [secrets] at mem
    obtain ⟨e, inside, named, _⟩ := mem_pickSecret mem
    exact named ▸ sound.name e inside
  · have mem : v ∈ p.runtimeSecrets := mem
    rw [secrets] at mem
    obtain ⟨e, inside, _, value⟩ := mem_pickSecret mem
    have reads := (sound.reads clean inside).value
    rw [value] at reads
    exact ⟨(secretId_chars reads.1).1, reads.2⟩
  · show ReleaseConfig.increasing (p.runtimeSecrets.map (·.1)) = true
    rw [secrets]
    exact increasing_names (ordered_pickSecret sound.ordered)
  · show (p.pinIdentity dep).1 ≠ some ""
    unfold Prepared.pinIdentity
    split
    · intro same
      have text : dep.asStr ≠ "" := by
        intro empty
        have back := Id.parse_asStr dep
        rw [empty] at back
        cases back
      exact text (Option.some.inj same)
    · exact fun same => by cases same
  · show (p.pinIdentity dep).2 ≠ some ""
    unfold Prepared.pinIdentity
    split
    · intro same
      have text : p.buildIdentity ≠ "" := by
        intro empty
        have chars := congrArg (fun t : String => t.toList.head?) (built.symm.trans empty)
        simp only [String.toList_append] at chars
        exact absurd chars (by simp)
      exact text (Option.some.inj same)
    · exact fun same => by cases same

theorem measured_release (measured : c.Measured) : (p.release dep c).Measured :=
  ⟨measured.image, measured.interval, measured.deadline, measured.memory, measured.cpus, measured.pids⟩

/-- A pin that is read has variables that pass the check of sets. -/
theorem validate_of_read (prepared : prepare q s = .ok p) (measured : c.Measured)
    (read : ReleaseConfig.decode (p.release dep c).encode = .ok (p.release dep c)) :
    Envvars.validate (p.release dep c).env = .ok (p.release dep c).env := by
  by_cases empty : (p.release dep c).env = []
  · rw [empty]
    exact (validate_iff (fun v mem => (by cases mem)) .nil).mpr (by decide)
  · refine ReleaseConfig.validate_of_decode (measured_release measured) (fun v mem => ?_) empty read
    rw [release_env _ _ prepared] at mem
    exact Envvars.name_free ((runtimeEnv_valid prepared).1 v mem).1 (by decide)

theorem decode_release_iff (opened : reopen others lines = .ok s) (prepared : prepare q s = .ok p)
    (measured : c.Measured) :
    ReleaseConfig.decode (p.release dep c).encode = .ok (p.release dep c) ↔
      Envvars.validate (p.release dep c).env = .ok (p.release dep c).env :=
  ⟨validate_of_read prepared measured,
    fun valid => ReleaseConfig.decode_encode (pinnable_release opened prepared measured valid)⟩

end

/-! ## One variable too many -/

/-- The name of variable number `i`. -/
def numbered (i : Nat) : String := String.ofList [Char.ofNat (65 + i / 26), Char.ofNat (65 + i % 26)]

/-- One more variable than a pin holds, each empty. -/
def crowd : List Def :=
  (List.range 65).map fun i => ⟨.everywhere none, numbered i, .set ⟨false, true⟩ (.config ""), 0⟩

/-- A deployment with nothing on the command line. -/
def bare : Request where
  app := ⟨1⟩
  project := none
  environment := none
  cliEnv := []
  buildArg := []
  target := none
  dockerfile := none

theorem measured_simulated : (ReleaseConfig.simulated 38000).Measured :=
  ⟨by decide, by decide, by decide, ⟨by decide, by decide⟩, ⟨by decide, by decide⟩, ⟨by decide, by decide⟩⟩

/-- Entries that are in order and within the limits are what is resolved. -/
theorem prepare_bare {s : ConfigState} {entries : List Entry} (rows : (s.effective none bare.app none).rows = entries)
    (ordered : Ordered entries) (valid : validateEntries entries = .ok ()) :
    ∃ p, prepare bare s = .ok p ∧ p.entries = entries := by
  have same : byName entries = entries := by
    refine List.mergeSort_of_pairwise (ordered.imp fun {a b} less => ?_)
    have other : ¬ b.name < a.name := fun more => String.lt_irrefl _ (String.lt_trans less more)
    simpa using other
  have first : s.resolve bare.project bare.app bare.environment = .ok entries := by
    simp only [ConfigState.resolve, bare, ← rows, bind, Except.bind]
    rw [show (s.effective none ⟨1⟩ none).rows = entries from rows, same, valid]
    rfl
  have cli : bare.cliEnv = [] := rfl
  have command : ∀ flags, withCommand entries [] flags = entries := fun flags => same
  have found : resolved bare s [] = .ok entries := by
    simp only [resolved, first, cli, command, valid, bind, Except.bind]
    rfl
  have args : Envvars.parseAll bare.buildArg = .ok [] :=
    (validate_iff (fun v mem => (by cases mem)) .nil).mpr (by decide)
  have target : checkTarget bare.target = .ok () := rfl
  refine ⟨⟨entries, none, none, none, buildArgs entries, buildSecrets entries, runtimeEnv entries,
    runtimeSecrets entries, identity none none (buildArgs entries) (buildSecrets entries)⟩, ?_, rfl⟩
  simp only [prepare, args, mapError_ok, target, found, bind, Except.bind]
  rfl

/-- Definitions that name no secret are all accepted. -/
theorem replay_texts {s : ConfigState} {ds : List Def}
    (plain : ∀ s : ConfigState, ∀ d ∈ ds, s.checkSetting d.setting = .ok ()) :
    s.replay (ds.map .definition) = .ok { s with defs := s.defs ++ ds } := by
  induction ds generalizing s with
  | nil => rw [List.append_nil]; rfl
  | cons d ds ih =>
    have applied : s.apply (.definition d) = .ok { s with defs := s.defs ++ [d] } := by
      simp only [ConfigState.apply, plain s d List.mem_cons_self]
      rfl
    rw [List.map_cons, ConfigState.replay, applied]
    refine (ih fun s e mem => plain s e (List.mem_cons_of_mem d mem)).trans ?_
    rw [List.append_assoc]
    rfl

end Harpoon.Config
