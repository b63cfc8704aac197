import Harpoon.Config.State

/-!
# Secrets are saved before they are named

The state keeps the highest version of each secret, and a reference is accepted up to it. The versions of a
secret only grow, so the references it accepts are to saved versions exactly when no save left a version out.
-/

namespace Harpoon.Config

open Deploy

/-! ## What records save and name -/

def Value.references : Value → List SecretRef
  | .secret r => [r]
  | .config _ => []

def Setting.references : Setting → List SecretRef
  | .set _ value => value.references
  | .unset => []

def ConfigRecord.references : ConfigRecord → List SecretRef
  | .definition d => d.setting.references
  | .secretSaved _ => []
  | .snapshot x => x.entries.flatMap (·.value.references)

def ConfigRecord.saves : ConfigRecord → Option SecretRef
  | .secretSaved x => some ⟨x.id, x.version⟩
  | _ => none

/-- The versions that records saved, in order. -/
def saved (rs : List ConfigRecord) : List SecretRef := rs.filterMap (·.saves)

/-- Those of one secret. -/
def savedOf (id : String) (rs : List ConfigRecord) : List SecretRef := (saved rs).filter (·.id = id)

def versionsOf (id : String) (rs : List ConfigRecord) : List Nat := (savedOf id rs).map (·.version.toNat)

/-- The saves of each secret are of the versions 1, 2, 3 and so on, without one left out. -/
def Consecutive (rs : List ConfigRecord) : Prop := ∀ id, ∃ n, versionsOf id rs = List.range' 1 n

section

variable {s s' : ConfigState} {rs done : List ConfigRecord} {r : ConfigRecord} {ref v : SecretRef} {id : String}

theorem mem_savedOf : ref ∈ savedOf id rs ↔ ref ∈ saved rs ∧ ref.id = id := by simp [savedOf]

theorem savedOf_append {more : List ConfigRecord} : savedOf id (rs ++ more) = savedOf id rs ++ savedOf id more := by
  rw [savedOf, saved, List.filterMap_append, List.filter_append]
  rfl

theorem versionsOf_append {more : List ConfigRecord} :
    versionsOf id (rs ++ more) = versionsOf id rs ++ versionsOf id more := by
  rw [versionsOf, savedOf_append, List.map_append]
  rfl

theorem savedOf_singleton (saves : r.saves = some v) : savedOf id [r] = if v.id = id then [v] else [] := by
  rw [savedOf, saved, List.filterMap_cons_some saves]
  by_cases own : v.id = id <;> simp [own]

theorem savedOf_other (saves : r.saves = none) : savedOf id [r] = [] := by
  rw [savedOf, saved, List.filterMap_cons_none saves]
  rfl

/-! ## What one record does -/

/-- An accepted record is a save of a version above the last one, or leaves the versions as they are. -/
theorem apply_cases (accepted : s.apply r = .ok s') :
    (∃ v, r.saves = some v ∧ s.lastVersion v.id < v.version ∧ s'.versions = s.versions.insert v) ∨
      (r.saves = none ∧ s'.versions = s.versions) := by
  cases r with
  | secretSaved x =>
    simp only [ConfigState.apply] at accepted
    split at accepted
    · cases accepted
    next newer =>
      cases accepted
      exact .inl ⟨⟨x.id, x.version⟩, rfl, UInt32.not_le.mp newer, rfl⟩
  | definition d =>
    refine .inr ⟨rfl, ?_⟩
    simp only [ConfigState.apply, bind, Except.bind] at accepted
    split at accepted
    · cases accepted
    · cases accepted
      rfl
  | snapshot x =>
    refine .inr ⟨rfl, ?_⟩
    simp only [ConfigState.apply, bind, Except.bind] at accepted
    split at accepted
    · cases accepted
    · split at accepted
      · cases accepted
      · cases accepted
        rfl

theorem checkEntries_values {seen : List String} {entries : List Entry}
    (accepted : s.checkEntries seen entries = .ok ()) : ∀ e ∈ entries, s.checkValue e.value = .ok () := by
  induction entries generalizing seen with
  | nil => intro e mem; cases mem
  | cons first rest ih =>
    simp only [ConfigState.checkEntries, bind, Except.bind] at accepted
    split at accepted
    · cases accepted
    · split at accepted
      · cases accepted
      next checked =>
        intro e mem
        rcases List.mem_cons.mp mem with rfl | mem
        · exact checked
        · exact ih accepted e mem

theorem checkValue_references {value : Value} (accepted : s.checkValue value = .ok ()) :
    ∀ ref ∈ value.references, s.checkSaved ref = .ok () := by
  cases value with
  | config v => intro ref mem; cases mem
  | secret r =>
    intro ref mem
    rw [List.mem_singleton.mp mem]
    exact accepted

/-- Every reference of an accepted record passed the same check. -/
theorem apply_references (accepted : s.apply r = .ok s') : ∀ ref ∈ r.references, s.checkSaved ref = .ok () := by
  cases r with
  | secretSaved x => intro ref mem; cases mem
  | definition d =>
    simp only [ConfigState.apply, bind, Except.bind] at accepted
    split at accepted
    · cases accepted
    next checked =>
      simp only [ConfigRecord.references]
      cases setting : d.setting with
      | unset => intro ref mem; cases mem
      | set flags value =>
        rw [setting] at checked
        exact checkValue_references checked
  | snapshot x =>
    simp only [ConfigState.apply, bind, Except.bind] at accepted
    split at accepted
    · cases accepted
    · split at accepted
      · cases accepted
      next checked =>
        intro ref mem
        obtain ⟨e, inside, mem⟩ := List.mem_flatMap.mp mem
        exact checkValue_references (checkEntries_values checked e inside) ref mem

/-! ## What the state knows of the saves -/

theorem versionsOf_save (saves : r.saves = some v) :
    versionsOf id [r] = if v.id = id then [v.version.toNat] else [] := by
  rw [versionsOf, savedOf_singleton saves]
  by_cases own : v.id = id <;> simp [own]

theorem versionsOf_other (saves : r.saves = none) : versionsOf id [r] = [] := by
  rw [versionsOf, savedOf_other saves]
  rfl

/-- The last of growing numbers, or the number before the first, is the largest. -/
theorem le_last_of_rising {l : List Nat} {a b : Nat} (rising : (a :: l).Pairwise (· < ·)) (mem : b ∈ a :: l) :
    b ≤ l.getLast?.getD a := by
  rcases List.eq_nil_or_concat l with rfl | ⟨init, last, rfl⟩
  · rw [List.mem_singleton.mp mem]
    exact Nat.le_refl a
  · rw [List.concat_eq_append] at rising mem ⊢
    rw [List.getLast?_concat, Option.getD_some]
    rw [← List.cons_append] at rising mem
    rcases List.mem_append.mp mem with mem | mem
    · exact Nat.le_of_lt ((List.pairwise_append.mp rising).2.2 b mem last List.mem_cons_self)
    · exact Nat.le_of_eq (List.mem_singleton.mp mem)

theorem mem_saved_iff : ref ∈ saved rs ↔ ref.version.toNat ∈ versionsOf ref.id rs := by
  rw [versionsOf, List.mem_map]
  constructor
  · intro mem
    exact ⟨ref, mem_savedOf.mpr ⟨mem, rfl⟩, rfl⟩
  · rintro ⟨⟨id, version⟩, mem, same⟩
    obtain ⟨inside, own⟩ := mem_savedOf.mp mem
    cases ref
    cases own
    cases UInt32.toNat_inj.mp same
    exact inside

/-- Growing numbers leave none out exactly when they are consecutive. -/
theorem all_iff_consecutive {l : List Nat} {a : Nat} (rising : (a :: l).Pairwise (· < ·)) :
    (∀ v, a < v → v ≤ l.getLast?.getD a → v ∈ l) ↔ ∃ n, l = List.range' (a + 1) n := by
  induction l generalizing a with
  | nil =>
    refine iff_of_true (fun v above below => ?_) ⟨0, rfl⟩
    exact absurd (Nat.lt_of_lt_of_le above below) (Nat.lt_irrefl a)
  | cons b l ih =>
    obtain ⟨least, rest⟩ := List.pairwise_cons.mp rising
    have above : a < b := least b List.mem_cons_self
    have last : (b :: l).getLast?.getD a = l.getLast?.getD b := by rw [List.getLast?_cons, Option.getD_some]
    have top : b ≤ l.getLast?.getD b := le_last_of_rising rest List.mem_cons_self
    rw [last]
    constructor
    · intro all
      have next : b = a + 1 := by
        rcases List.mem_cons.mp (all (a + 1) (Nat.lt_succ_self a) (Nat.le_trans above top)) with same | mem
        · exact same.symm
        · exact absurd ((List.pairwise_cons.mp rest).1 _ mem) (Nat.not_lt.mpr above)
      have inner : ∀ v, b < v → v ≤ l.getLast?.getD b → v ∈ l := by
        intro v more below
        rcases List.mem_cons.mp (all v (Nat.lt_trans above more) below) with same | mem
        · exact absurd more (Nat.not_lt.mpr (Nat.le_of_eq same))
        · exact mem
      obtain ⟨n, rfl⟩ := (ih rest).mp inner
      exact ⟨n + 1, by rw [next, List.range'_succ]⟩
    · rintro ⟨n, consecutive⟩ v more below
      cases n with
      | zero => cases consecutive
      | succ n =>
        rw [List.range'_succ] at consecutive
        obtain ⟨next, tail⟩ := List.cons.inj consecutive
        by_cases first : v = b
        · exact first ▸ List.mem_cons_self
        · have inner := (ih rest).mpr ⟨n, by rw [tail, next]⟩
          exact List.mem_cons_of_mem b (inner v (by omega) below)

/-- The state keeps the last save of each secret, and the versions of each grow from 1 on. -/
structure Tracks (rs : List ConfigRecord) (s : ConfigState) : Prop where
  last : ∀ id, s.versions.find id = (savedOf id rs).getLast?
  rising : ∀ id, (0 :: versionsOf id rs).Pairwise (· < ·)

namespace Tracks

theorem empty : Tracks [] .empty := ⟨fun _ => rfl, fun _ => List.pairwise_singleton _ _⟩

theorem lastVersion (t : Tracks rs s) : (s.lastVersion id).toNat = (versionsOf id rs).getLast?.getD 0 := by
  rw [ConfigState.lastVersion, t.last id, versionsOf, List.getLast?_map]
  cases (savedOf id rs).getLast? <;> rfl

theorem apply (t : Tracks done s) (accepted : s.apply r = .ok s') : Tracks (done ++ [r]) s' := by
  rcases apply_cases accepted with ⟨v, saves, newer, versions⟩ | ⟨saves, versions⟩
  · constructor
    · intro id
      rw [versions, Keyed.Table.find_insert, savedOf_append, savedOf_singleton saves]
      by_cases own : v.id = id
      · rw [if_pos own, if_pos own, List.getLast?_concat]
      · rw [if_neg own, if_neg own, List.append_nil]
        exact t.last id
    · intro id
      have rising := t.rising id
      rw [versionsOf_append, versionsOf_save saves]
      by_cases own : v.id = id
      · rw [if_pos own, ← List.cons_append]
        refine List.pairwise_append.mpr ⟨rising, List.pairwise_singleton _ _, fun a before b mem => ?_⟩
        have above : (versionsOf id done).getLast?.getD 0 < v.version.toNat := by
          rw [← t.lastVersion, ← own]
          exact newer
        rw [List.mem_singleton.mp mem]
        exact Nat.lt_of_le_of_lt (le_last_of_rising rising before) above
      · rw [if_neg own, List.append_nil]
        exact rising
  · constructor
    · intro id
      rw [versions, savedOf_append, savedOf_other saves, List.append_nil]
      exact t.last id
    · intro id
      rw [versionsOf_append, versionsOf_other saves, List.append_nil]
      exact t.rising id

theorem replay (t : Tracks done s) (accepted : s.replay rs = .ok s') : Tracks (done ++ rs) s' := by
  induction rs generalizing s done with
  | nil =>
    cases accepted
    rw [List.append_nil]
    exact t
  | cons r rs ih =>
    simp only [ConfigState.replay, bind, Except.bind] at accepted
    split at accepted
    · cases accepted
    next mid applied =>
      have whole := ih (t.apply applied) accepted
      rwa [List.append_assoc] at whole

end Tracks

/-- The state before a record of an accepted run. -/
theorem replay_split {earlier later : List ConfigRecord} (accepted : s.replay (earlier ++ r :: later) = .ok s') :
    ∃ before after, s.replay earlier = .ok before ∧ before.apply r = .ok after := by
  induction earlier generalizing s with
  | nil =>
    simp only [List.nil_append, ConfigState.replay, bind, Except.bind] at accepted
    split at accepted
    · cases accepted
    next after applied => exact ⟨s, after, rfl, applied⟩
  | cons q earlier ih =>
    simp only [List.cons_append, ConfigState.replay, bind, Except.bind] at accepted
    split at accepted
    · cases accepted
    next mid applied =>
      obtain ⟨before, after, replayed, last⟩ := ih accepted
      refine ⟨before, after, ?_, last⟩
      simp only [ConfigState.replay, bind, Except.bind, applied]
      exact replayed

/-! ## References to saved versions -/

namespace Tracks

/-- A reference is accepted up to the last version of a secret that has one. -/
theorem checkSaved_iff (t : Tracks rs s) :
    s.checkSaved ref = .ok () ↔ savedOf ref.id rs ≠ [] ∧ ref.version ≤ s.lastVersion ref.id := by
  unfold ConfigState.checkSaved ConfigState.lastVersion
  rw [t.last ref.id]
  rcases List.eq_nil_or_concat (savedOf ref.id rs) with none | ⟨init, last, some⟩
  · rw [none]
    simp
  · rw [some, List.concat_eq_append, List.getLast?_concat]
    simp

/-- What the state accepts was saved exactly when no save left a version out. -/
theorem saved_iff_consecutive (t : Tracks rs s) :
    (∀ ref, ref.version ≠ 0 → s.checkSaved ref = .ok () → ref ∈ saved rs) ↔ Consecutive rs := by
  have zero : ∀ {u : UInt32}, u ≠ 0 ↔ 0 < u.toNat := fun {u} =>
    ⟨fun other => Nat.pos_of_ne_zero fun none => other (UInt32.toNat_inj.mp none), fun some none => by
      rw [none] at some
      exact absurd some (Nat.lt_irrefl 0)⟩
  constructor
  · intro sound id
    refine (all_iff_consecutive (t.rising id)).mp fun v some below => ?_
    rw [← t.lastVersion] at below
    have small : v < 2 ^ 32 := Nat.lt_of_le_of_lt below (s.lastVersion id).toNat_lt
    have number : (UInt32.ofNat v).toNat = v := UInt32.toNat_ofNat_of_lt' small
    have known : savedOf id rs ≠ [] := by
      intro none
      have last : (s.lastVersion id).toNat = 0 := by rw [t.lastVersion, versionsOf, none]; rfl
      omega
    have accepted : s.checkSaved ⟨id, UInt32.ofNat v⟩ = .ok () :=
      t.checkSaved_iff.mpr ⟨known, UInt32.le_iff_toNat_le.mpr (number.symm ▸ below)⟩
    have mem := mem_saved_iff.mp (sound ⟨id, UInt32.ofNat v⟩ (zero.mpr (number.symm ▸ some)) accepted)
    rwa [number] at mem
  · intro consecutive ref some accepted
    have below := (t.checkSaved_iff.mp accepted).2
    refine mem_saved_iff.mpr ((all_iff_consecutive (t.rising ref.id)).mpr (consecutive ref.id) _ (zero.mp some) ?_)
    rw [← t.lastVersion]
    exact below

/-- The next version is above all saved ones, unless the largest one is saved. -/
theorem nextVersion_iff (t : Tracks rs s) :
    (∀ v ∈ versionsOf id rs, v < (s.nextVersion id).toNat) ↔ s.lastVersion id ≠ 0xFFFFFFFF := by
  have last : (s.lastVersion id).toNat = (versionsOf id rs).getLast?.getD 0 := t.lastVersion
  constructor
  · intro above full
    have next : s.nextVersion id = 0 := by rw [ConfigState.nextVersion, full]; rfl
    rw [next] at above
    have mem : (s.lastVersion id).toNat ∈ versionsOf id rs := by
      rcases List.eq_nil_or_concat (versionsOf id rs) with none | ⟨init, v, some⟩
      · rw [full, none] at last
        cases last
      · rw [some, List.concat_eq_append, List.getLast?_concat, Option.getD_some] at last
        rw [last, some, List.concat_eq_append]
        exact List.mem_append_right init List.mem_cons_self
    exact absurd (above _ mem) (Nat.not_lt_zero _)
  · intro room v mem
    have bound : v ≤ (s.lastVersion id).toNat := last ▸ le_last_of_rising (t.rising id) (List.mem_cons_of_mem 0 mem)
    have below : (s.lastVersion id).toNat + 1 < 2 ^ 32 := by
      have limit := (s.lastVersion id).toNat_lt
      have other : (s.lastVersion id).toNat ≠ 0xFFFFFFFF := fun same => room (UInt32.toNat_inj.mp same)
      omega
    have next : (s.nextVersion id).toNat = (s.lastVersion id).toNat + 1 := by
      rw [ConfigState.nextVersion, UInt32.toNat_add]
      exact Nat.mod_eq_of_lt below
    omega

end Tracks

theorem Consecutive.of_append {more : List ConfigRecord} (consecutive : Consecutive (rs ++ more)) :
    Consecutive rs := by
  intro id
  obtain ⟨n, whole⟩ := consecutive id
  rw [versionsOf_append] at whole
  obtain ⟨k, _, first, _⟩ := List.range'_eq_append_iff.mp whole.symm
  exact ⟨k, first⟩

/-- Every reference of a record in a run is to a version that a record before it saved. Version 0 is not a
version: no line holds a reference to it. -/
def NamedAfterSaved (rs : List ConfigRecord) : Prop :=
  ∀ earlier r later, rs = earlier ++ r :: later → ∀ ref ∈ r.references, ref.version ≠ 0 → ref ∈ saved earlier

/-- Every reference of the next record is to a saved version, whatever record it is. -/
def NamesSaved (rs : List ConfigRecord) (s : ConfigState) : Prop :=
  ∀ r s', s.apply r = .ok s' → ∀ ref ∈ r.references, ref.version ≠ 0 → ref ∈ saved rs

/-- Every reference of a release that passes the check after the replay is to a saved version. -/
def PinsSaved (rs : List ConfigRecord) (s : ConfigState) : Prop :=
  ∀ ds, s.checkPins ds = .ok () → ∀ d ∈ ds, ∀ p, d.pinned = some p → ∀ q ∈ p.secrets, q.2.version ≠ 0 → q.2 ∈ saved rs

/-- A definition of a name as a secret. -/
def naming (ref : SecretRef) : ConfigRecord :=
  .definition ⟨.everywhere none, "TOKEN", .set ⟨false, true⟩ (.secret ref), 0⟩

theorem namesSaved_iff (t : Tracks rs s) : NamesSaved rs s ↔ Consecutive rs := by
  refine Iff.trans ⟨fun named ref some accepted => ?_, fun sound r s' accepted ref mem some => ?_⟩
    t.saved_iff_consecutive
  · have applied : s.apply (naming ref) = .ok { s with defs := s.defs ++ [⟨.everywhere none, "TOKEN",
        .set ⟨false, true⟩ (.secret ref), 0⟩] } := by
      simp only [naming, ConfigState.apply, ConfigState.checkSetting, ConfigState.checkValue, accepted]
      rfl
    exact named _ _ applied ref List.mem_cons_self some
  · exact sound ref some (apply_references accepted ref mem)

theorem forM_mem {α ε : Type} {check : α → Except ε Unit} {l : List α} (accepted : l.forM check = .ok ()) :
    ∀ a ∈ l, check a = .ok () := by
  induction l with
  | nil => intro a mem; cases mem
  | cons b l ih =>
    rw [List.forM] at accepted
    simp only [bind, Except.bind] at accepted
    split at accepted
    · cases accepted
    next checked =>
      intro a mem
      rcases List.mem_cons.mp mem with rfl | mem
      · exact checked
      · exact ih accepted a mem

theorem checkPin_saved {d : Deployment} {p : ReleaseConfig} (accepted : s.checkPin d (some p) = .ok ()) :
    ∀ q ∈ p.secrets, s.checkSaved q.2 = .ok () := by
  simp only [ConfigState.checkPin, bind, Except.bind] at accepted
  split at accepted
  · cases accepted
  · intro q mem
    have checked := forM_mem accepted q mem
    cases answer : s.checkSaved q.2 with
    | ok _ => rfl
    | error e =>
      rw [answer] at checked
      cases checked

theorem pinsSaved (t : Tracks rs s) (consecutive : Consecutive rs) : PinsSaved rs s := by
  intro ds accepted d mem p pinned q inside some
  have checked := forM_mem accepted d mem
  rw [pinned] at checked
  exact t.saved_iff_consecutive.mpr consecutive q.2 some (checkPin_saved checked q inside)

/-- In an accepted run whose saves leave no version out, every reference is to a version saved before. The
state accepts references to saved versions only exactly when none was left out. The next version is above
all saved ones exactly when there is one. -/
theorem saved_before_named (accepted : ConfigState.empty.replay rs = .ok s) :
    (Consecutive rs → NamedAfterSaved rs ∧ PinsSaved rs s) ∧ (NamesSaved rs s ↔ Consecutive rs) ∧
      ∀ id, (versionsOf id rs).Pairwise (· < ·) ∧
        ((∀ v ∈ versionsOf id rs, v < (s.nextVersion id).toNat) ↔ s.lastVersion id ≠ 0xFFFFFFFF) := by
  have tracks : Tracks rs s := Tracks.empty.replay accepted
  refine ⟨fun consecutive => ⟨?_, pinsSaved tracks consecutive⟩, namesSaved_iff tracks, fun id =>
    ⟨(List.pairwise_cons.mp (tracks.rising id)).2, tracks.nextVersion_iff⟩⟩
  rintro earlier r later rfl ref mem some
  obtain ⟨before, after, replayed, applied⟩ := replay_split accepted
  have tracks : Tracks earlier before := Tracks.empty.replay replayed
  exact (namesSaved_iff tracks).mpr consecutive.of_append r after applied ref mem some

/-- Two versions of a secret, with a definition between them. -/
def rotation : List ConfigRecord :=
  [.secretSaved ⟨"global/TOKEN", 1, 0⟩, naming ⟨"global/TOKEN", 1⟩, .secretSaved ⟨"global/TOKEN", 2, 0⟩]

theorem saved_before_named_rotation :
    ∃ s, ConfigState.empty.replay rotation = .ok s ∧ NamedAfterSaved rotation ∧ PinsSaved rotation s := by
  have accepted : ConfigState.empty.replay rotation = .ok _ := rfl
  have consecutive : Consecutive rotation := by
    intro id
    by_cases own : "global/TOKEN" = id
    · exact ⟨2, by rw [← own]; decide⟩
    · exact ⟨0, by simp [versionsOf, savedOf, saved, rotation, naming, ConfigRecord.saves, own]⟩
  exact ⟨_, accepted, (saved_before_named accepted).1 consecutive⟩

/-- A save that skips version 2, and a definition that names it. -/
def skipping : List ConfigRecord :=
  [.secretSaved ⟨"global/TOKEN", 1, 0⟩, .secretSaved ⟨"global/TOKEN", 3, 0⟩, naming ⟨"global/TOKEN", 2⟩]

/-- The version that was left out was never saved, and a definition that names it is accepted. -/
theorem skipped_version_named :
    ¬ ∀ rs s, ConfigState.empty.replay rs = .ok s → NamedAfterSaved rs := by
  intro all
  have accepted : ConfigState.empty.replay skipping = .ok _ := rfl
  have named := all _ _ accepted [.secretSaved ⟨"global/TOKEN", 1, 0⟩, .secretSaved ⟨"global/TOKEN", 3, 0⟩]
    (naming ⟨"global/TOKEN", 2⟩) [] rfl ⟨"global/TOKEN", 2⟩ List.mem_cons_self (by decide)
  exact absurd named (by decide)

end

end Harpoon.Config
