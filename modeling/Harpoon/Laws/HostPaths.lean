import Harpoon.Laws.SharedRoots
import Mathlib.Data.List.Forall2

/-!
# The check of a body and its translation

A source in the body that Docker is sent has to be the guest's path of the longest shared root that contains the
host's, and what the guest sees there the file that the check has found. All else in the body is as it was.
-/

namespace Harpoon.HostPaths

open Docker (Json)
open Wire (Free fields joined splitOnce stripPrefix)
open Members

variable {File α : Type} {mac : Mac File} {roots : List SharedRoot} {key src src' guest b : String} {v v' : Json} {m ms body : Members}
  {F G : String → Json → Json} {f : α → α} {read : Json → Option α} {write : α → Json} {R : α → α → Prop}

/-! ## What has to become of a body -/

section

variable (mac : Mac File) (roots : List SharedRoot)

/-- At a guest path or below it. -/
def IsGuest (p : String) : Prop := ∃ r ∈ roots, ∃ rest, Tail rest ∧ p = r.guestPath ++ rest

/-- The guest's path of the longest shared root that contains the host's, and it stands for the file that is there as
the source is written. -/
def Moved (src src' : String) : Prop :=
  ∃ r rest, Longest roots (mac.standardized src) r ∧ src' = r.guestPath ++ rest ∧ mac.lookup (r.hostPath ++ rest) = mac.lookup src

structure Sound (src src' : String) : Prop where
  volume : ¬ hasPrefix src "/" = true → src' = src
  inside : hasPrefix src "/" = true → hasPrefix src' "/" = true → IsGuest roots src'
  moved : src' ≠ src → Moved mac roots src src'

/-- The same names in the same order, and the values as the relation has them under each. -/
structure SameBut (R : String → Json → Json → Prop) (before after : Members) : Prop where
  keys : after.map Prod.fst = before.map Prod.fst
  values : ∀ key v, before.subscript key = some v → ∃ v', after.subscript key = some v' ∧ R key v v'

/-- Of a value that reads as something, that is related; any other is as it was. -/
def Through (read : Json → Option α) (write : α → Json) (R : α → α → Prop) (v v' : Json) : Prop :=
  (∀ a, read v = some a → ∃ a', v' = write a' ∧ R a a') ∧ (read v = none → v' = v)

/-- Of a bind all that follows the source is as it was. -/
def Entry (b b' : String) : Prop :=
  (∀ src t, splitOnce ':' b = some (src, t) → ∃ src', splitOnce ':' b' = some (src', t) ∧ Sound mac roots src src') ∧
    (splitOnce ':' b = none → b' = b)

/-- The mounts that the check looks at. -/
def Looked (m : Members) : Prop := string "Type" m = none ∨ string "Type" m = some "bind"

instance : Decidable (Looked m) := inferInstanceAs (Decidable (_ ∨ _))

def Mount (m : Members) : Members → Prop :=
  SameBut (fun key v v' => if key = "Source" ∧ Looked m then Through Json.asStr .str (Sound mac roots) v v' else v' = v) m

def ofStrings (l : List String) : Json := .arr (l.map .str)

def ofObjects (l : List Members) : Json := .arr (l.map .obj)

def Inner (key : String) (v v' : Json) : Prop :=
  if key = "Binds" then Through strings? ofStrings (List.Forall₂ (Entry mac roots)) v v'
  else if key = "Mounts" then Through objects? ofObjects (List.Forall₂ (Mount mac roots)) v v'
  else v' = v

def Outer (key : String) (v v' : Json) : Prop :=
  if key = "HostConfig" then Through Json.asObject .obj (SameBut (Inner mac roots)) v v' else Inner mac roots key v v'

/-- The body that Docker is sent, beside the one that was asked for. -/
def Agree (body sent : Members) : Prop := SameBut (Outer mac roots) body sent

end

/-! ## Where it does -/

section

variable (mac : Mac File) (roots : List SharedRoot)

def allBinds (body : Members) : List String := binds ((object "HostConfig" body).getD []) ++ binds body

def allMounts (body : Members) : List Members := mounts ((object "HostConfig" body).getD []) ++ mounts body

/-- The path leads where it does as it is written, if it is not the guest's already. -/
def Straight (src : String) : Prop :=
  ∀ r rest, Longest roots (mac.standardized src) r → Remainder r (mac.standardized src) rest →
    r.guestPath ++ rest = src ∨ mac.lookup (mac.standardized src) = mac.lookup src

/-- The mounts that are translated: no type, or that of a bind. -/
def BindLike (m : Members) : Prop := m.subscript "Type" = none ∨ string "Type" m = some "bind"

structure Regular (body : Members) : Prop where
  binds : ∀ b ∈ allBinds body, ∀ src t, splitOnce ':' b = some (src, t) → hasPrefix src "/" = true →
    Straight mac roots src ∧ ∀ r, Longest roots (mac.standardized src) r → Free ':' r.guestPath
  mounts : ∀ m ∈ allMounts body, ∀ src, string "Source" m = some src → hasPrefix src "/" = true →
    (BindLike m → Straight mac roots src) ∧ (Looked m → ¬ BindLike m → IsGuest roots src)

end

/-! ## Objects -/

theorem subscript_cons (m : String × Json) : subscript key (m :: ms) = if m.1 = key then some m.2 else subscript key ms := by
  unfold subscript Json.get
  simp only [List.find?_cons]
  split
  next same => rw [if_pos (of_decide_eq_true same)]; rfl
  next other => rw [if_neg (of_decide_eq_false other)]

theorem subscript_put (present : subscript key ms = some v) : subscript key (put key v' ms) = some v' := by
  induction ms with
  | nil => cases present
  | cons m ms ih =>
    rw [subscript_cons] at present
    rw [put]
    split
    · rw [subscript_cons, if_pos rfl]
    next other =>
      rw [if_neg other] at present
      rw [subscript_cons, if_neg other]
      exact ih present

theorem subscript_put_ne {k : String} (other : k ≠ key) : subscript k (put key v' ms) = subscript k ms := by
  induction ms with
  | nil => rw [put, subscript_cons, if_neg other.symm]
  | cons m ms ih =>
    rw [put]
    split
    next same => rw [subscript_cons, subscript_cons, if_neg other.symm, if_neg (same ▸ other.symm)]
    next => rw [subscript_cons, subscript_cons, ih]

theorem keys_put (present : subscript key ms = some v) : (put key v' ms).map Prod.fst = ms.map Prod.fst := by
  induction ms with
  | nil => cases present
  | cons m ms ih =>
    rw [subscript_cons] at present
    rw [put]
    split
    next same => rw [List.map_cons, List.map_cons, same]
    next other =>
      rw [if_neg other] at present
      rw [List.map_cons, List.map_cons, ih present]

/-- The same names, and under each name what the function makes of the value. -/
structure Rewritten (F : String → Json → Json) (before after : Members) : Prop where
  keys : after.map Prod.fst = before.map Prod.fst
  values : ∀ key, after.subscript key = (before.subscript key).map (F key)

theorem Rewritten.trans {a b c : Members} (first : Rewritten F a b) (second : Rewritten G b c) :
    Rewritten (fun key v => G key (F key v)) a c := by
  refine ⟨second.keys.trans first.keys, fun key => ?_⟩
  rw [second.values, first.values, Option.map_map]
  rfl

theorem Rewritten.congr {a b : Members} (rewritten : Rewritten F a b) (same : ∀ key v, F key v = G key v) : Rewritten G a b := by
  have functions : F = G := funext fun key => funext (same key)
  exact functions ▸ rewritten

theorem sameBut_iff {R : String → Json → Json → Prop} {before after : Members} (rewritten : Rewritten F before after) :
    SameBut R before after ↔ ∀ key v, before.subscript key = some v → R key v (F key v) := by
  constructor
  · intro same key v present
    obtain ⟨v', found, related⟩ := same.values key v present
    rw [rewritten.values, present] at found
    cases found
    exact related
  · intro related
    refine ⟨rewritten.keys, fun key v present => ⟨F key v, ?_, related key v present⟩⟩
    rw [rewritten.values, present, Option.map_some]

/-- What a value reads as, changed. -/
def within (read : Json → Option α) (write : α → Json) (f : α → α) (v : Json) : Json :=
  ((read v).map fun a => write (f a)).getD v

def under (key : String) (change : Json → Json) (k : String) (v : Json) : Json := if k = key then change v else v

theorem through_within (apart : ∀ a a', write a = write a' → a = a') :
    Through read write R v (within read write f v) ↔ ∀ a, read v = some a → R a (f a) := by
  rw [Through, within]
  cases read v with
  | none => exact iff_of_true ⟨nofun, fun _ => rfl⟩ nofun
  | some a =>
    constructor
    · rintro ⟨related, -⟩ _ ⟨⟩
      obtain ⟨a', same, related⟩ := related a rfl
      exact apart _ _ same ▸ related
    · intro related
      refine ⟨?_, nofun⟩
      rintro _ ⟨⟩
      exact ⟨f a, rfl, related a rfl⟩

/-- A change of what stands under one name. -/
theorem rewritten_under {change : Members → Option Members} (written : ∀ v a, read v = some a → write a = v)
    (finds : ∀ a, (ms.subscript key).bind read = some a → change ms = some (ms.put key (write (f a))) ∨ change ms = none ∧ f a = a)
    (misses : (ms.subscript key).bind read = none → change ms = none) :
    Rewritten (under key (within read write f)) ms ((change ms).getD ms) := by
  have same : change ms = none → (∀ v, ms.subscript key = some v → within read write f v = v) →
      Rewritten (under key (within read write f)) ms ((change ms).getD ms) := by
    intro unchanged same
    rw [unchanged]
    refine ⟨rfl, fun k => ?_⟩
    cases present : subscript k ms with
    | none => rw [Option.getD_none, present, Option.map_none]
    | some v =>
      rw [Option.getD_none, present, Option.map_some, under]
      split
      next named => rw [same v (named ▸ present)]
      next => rfl
  cases found : (ms.subscript key).bind read with
  | none =>
    refine same (misses found) fun v present => ?_
    rw [present, Option.bind_some] at found
    rw [within, found, Option.map_none, Option.getD_none]
  | some a =>
    obtain ⟨v, present, reads⟩ := Option.bind_eq_some_iff.mp found
    rcases finds a found with changed | ⟨unchanged, fixed⟩
    · rw [changed]
      refine ⟨keys_put present, fun k => ?_⟩
      rw [Option.getD_some]
      by_cases named : k = key
      · rw [named, subscript_put present, present, Option.map_some, under, if_pos rfl, within, reads, Option.map_some,
          Option.getD_some]
      · rw [subscript_put_ne named]
        cases subscript k ms with
        | none => rfl
        | some w => rw [Option.map_some, under, if_neg named]
    · refine same unchanged fun w there => ?_
      cases present.symm.trans there
      rw [within, reads, Option.map_some, Option.getD_some, fixed, written v a reads]

/-! ## A source -/

theorem lookup_remainder {rest path : String} {r : SharedRoot} (left : Remainder r path rest) :
    mac.lookup (r.hostPath ++ rest) = mac.lookup path := by
  obtain ⟨tail, rfl | ⟨root, rfl⟩ | ⟨root, rfl⟩⟩ := left
  · rfl
  · rw [root, mac.tmp rest tail]
  · rw [root, mac.tmp rest tail]

theorem issue_none : issue mac roots src = none ↔
    (hasPrefix src "/" = true → (∃ guest, translateHostPath mac roots src = some guest) ∧ mac.fileExists src = true) := by
  unfold issue
  cases absolute : hasPrefix src "/" with
  | false => exact iff_of_true rfl nofun
  | true =>
    cases translated : translateHostPath mac roots src with
    | none => exact iff_of_false nofun fun passes => by cases (passes rfl).1.choose_spec
    | some guest =>
      cases there : mac.fileExists src with
      | false => exact iff_of_false nofun fun passes => by cases (passes rfl).2
      | true => exact iff_of_true rfl fun _ => ⟨⟨guest, rfl⟩, rfl⟩

/-- A source that is left as it is. -/
theorem sound_self : Sound mac roots src src ↔ (hasPrefix src "/" = true → IsGuest roots src) :=
  ⟨fun sound absolute => sound.inside absolute absolute,
    fun inside => ⟨fun _ => rfl, fun absolute _ => inside absolute, fun moved => absurd rfl moved⟩⟩

theorem sound_translated (translated : translateHostPath mac roots src = some guest) :
    Sound mac roots src guest ↔ Straight mac roots src := by
  obtain ⟨absolute, r, rest, longest, left, rfl⟩ := translateHostPath_iff.mp translated
  constructor
  · intro sound q behind longest' left'
    cases longest.unique longest'
    cases Option.some.inj ((remainder_eq left).symm.trans (remainder_eq left'))
    by_cases same : r.guestPath ++ rest = src
    · exact .inl same
    · obtain ⟨q, behind, longest', path, leads⟩ := sound.moved same
      cases longest.unique longest'
      rw [← String.append_right_inj _ |>.mp path, lookup_remainder left] at leads
      exact .inr leads
  · intro straight
    refine ⟨fun relative => absurd absolute relative, fun _ _ => ⟨r, longest.mem, rest, left.1, rfl⟩, fun moved => ?_⟩
    rcases straight r rest longest left with same | leads
    · exact absurd same moved
    · exact ⟨r, rest, longest, rfl, (lookup_remainder left).trans leads⟩

/-! ## An entry of the binds -/

theorem fields_split {t : String} (splits : splitOnce ':' b = some (src, t)) : fields ':' b = src :: fields ':' t := by
  obtain ⟨rfl, free⟩ := Wire.splitOnce_iff.mp splits
  exact Wire.fields_before free

theorem translateBindsEntry_whole (whole : splitOnce ':' b = none) : translateBindsEntry mac roots b = b := by
  rw [translateBindsEntry, Wire.fields_of_free (Wire.splitOnce_none_iff.mp whole)]

theorem translateBindsEntry_split {t : String} (splits : splitOnce ':' b = some (src, t)) :
    translateBindsEntry mac roots b = ((translateHostPath mac roots src).map fun g => g ++ (String.singleton ':' ++ t)).getD b := by
  unfold translateBindsEntry
  have pieces : fields ':' t ≠ [] := Wire.fields_ne_nil
  obtain ⟨target, mode, pieces⟩ := List.exists_cons_of_ne_nil pieces
  rw [fields_split splits, pieces]
  dsimp only
  cases translateHostPath mac roots src with
  | none => rfl
  | some g =>
    show joined ':' (g :: target :: mode) = g ++ (String.singleton ':' ++ t)
    rw [joined, String.intercalate_cons_of_ne_nil (List.cons_ne_nil _ _), ← joined, ← pieces,
      Wire.joined_fields, String.append_assoc]

theorem bindIssue_split {t : String} (splits : splitOnce ':' b = some (src, t)) : bindIssue mac roots b = issue mac roots src := by
  have pieces : fields ':' t ≠ [] := Wire.fields_ne_nil
  obtain ⟨target, mode, pieces⟩ := List.exists_cons_of_ne_nil pieces
  rw [bindIssue, fields_split splits, pieces]

/-- What is made of a source has a colon only by the guest path. -/
theorem free_guest {rest : String} {r : SharedRoot} (absolute : hasPrefix src "/" = true) (free : Free ':' src)
    (left : Remainder r (mac.standardized src) rest) : Free ':' (r.guestPath ++ rest) ↔ Free ':' r.guestPath := by
  have clean : Free ':' rest := by
    intro inside
    refine free (mac.removes src absolute _ ?_)
    obtain ⟨-, same | ⟨-, same⟩ | ⟨-, same⟩⟩ := left
    all_goals
      rw [same, String.toList_append]
      exact List.mem_append_right _ inside
  rw [Free, String.toList_append, List.mem_append, not_or]
  exact and_iff_left clean

theorem entry_iff (passes : bindIssue mac roots b = none) : Entry mac roots b (translateBindsEntry mac roots b) ↔
    ∀ src t, splitOnce ':' b = some (src, t) → hasPrefix src "/" = true →
      Straight mac roots src ∧ ∀ r, Longest roots (mac.standardized src) r → Free ':' r.guestPath := by
  cases splits : splitOnce ':' b with
  | none =>
    refine iff_of_true ⟨fun _ _ found => ?_, fun _ => translateBindsEntry_whole splits⟩ fun _ _ found => by cases found
    cases splits.symm.trans found
  | some parts =>
    obtain ⟨src, t⟩ := parts
    have free := (Wire.splitOnce_iff.mp splits).2
    rw [bindIssue_split splits, issue_none] at passes
    rw [Entry, splits, translateBindsEntry_split splits]
    cases absolute : hasPrefix src "/" with
    | false =>
      have relative : translateHostPath mac roots src = none := by rw [translateHostPath, absolute]; rfl
      rw [relative]
      refine iff_of_true ⟨?_, nofun⟩ ?_
      · rintro _ _ ⟨⟩
        exact ⟨src, splits, sound_self.mpr fun holds => absurd (absolute.symm.trans holds) Bool.false_ne_true⟩
      · rintro _ _ ⟨⟩ holds
        exact absurd (absolute.symm.trans holds) Bool.false_ne_true
    | true =>
      obtain ⟨⟨guest, translated⟩, -⟩ := passes absolute
      obtain ⟨-, r, rest, longest, left, same⟩ := translateHostPath_iff.mp translated
      have clean := free_guest absolute free left
      rw [← same] at clean
      rw [translated, Option.map_some, Option.getD_some]
      constructor
      · rintro ⟨related, -⟩ _ _ ⟨⟩ -
        obtain ⟨src', splits', sound⟩ := related src t rfl
        obtain ⟨whole, free'⟩ := Wire.splitOnce_iff.mp splits'
        obtain rfl := String.append_left_inj _ |>.mp whole
        exact ⟨(sound_translated translated).mp sound, fun q longest' => longest.unique longest' ▸ clean.mp free'⟩
      · intro holds
        obtain ⟨straight, frees⟩ := holds src t rfl absolute
        refine ⟨?_, nofun⟩
        rintro _ _ ⟨⟩
        exact ⟨guest, Wire.splitOnce_append (clean.mpr (frees r longest)), (sound_translated translated).mpr straight⟩

/-! ## A mount -/

instance : Decidable (BindLike m) :=
  decidable_of_iff ((m.subscript "Type").isNone = true ∨ string "Type" m = some "bind") (or_congr Option.isNone_iff_eq_none Iff.rfl)

theorem topMount_eq : topMount mac roots m = if BindLike m then
    (string "Source" m).bind fun src => (translateHostPath mac roots src).map fun g => m.put "Source" (.str g) else none := by
  unfold topMount
  cases string "Source" m with
  | none => rw [Option.bind_none, ite_self]; rfl
  | some src =>
    show (translateHostPath mac roots src).bind _ = _
    rw [Option.bind_some]
    cases translateHostPath mac roots src with
    | none => rw [Option.map_none, ite_self]; rfl
    | some g =>
      rw [Option.bind_some, Option.map_some]
      by_cases typed : string "Type" m = some "bind"
      · rw [if_pos typed, if_pos (.inr typed)]; rfl
      · by_cases untyped : m.subscript "Type" = none
        · rw [if_neg typed, if_pos (Option.isNone_iff_eq_none.mpr untyped), if_pos (.inl untyped)]; rfl
        · have neither : ¬ BindLike m := fun like => like.elim untyped typed
          rw [if_neg typed, if_neg neither, if_neg fun absent => untyped (Option.isNone_iff_eq_none.mp absent)]

/-- The two loops over mounts do the same. -/
theorem hostMount_eq : hostMount mac roots m = topMount mac roots m := by
  rw [topMount_eq]
  unfold hostMount
  by_cases untyped : m.subscript "Type" = none
  · have type : string "Type" m = none := by rw [string, untyped, Option.bind_none]
    rw [if_pos (.inl untyped)]
    simp [type, untyped, guard, Option.map_eq_bind, Function.comp_def]
  · by_cases typed : string "Type" m = some "bind"
    · rw [if_pos (.inr typed)]
      simp [typed, untyped, guard, Option.map_eq_bind, Function.comp_def]
    · have neither : ¬ BindLike m := fun like => like.elim untyped typed
      rw [if_neg neither]
      cases type : string "Type" m with
      | none => simp [untyped, guard]
      | some t =>
        have other : t ≠ "bind" := fun same => typed (same ▸ type)
        simp [untyped, other, guard]

/-- What a mount's source becomes. -/
def bindSource (mac : Mac File) (roots : List SharedRoot) (m : Members) (src : String) : String :=
  if BindLike m then (translateHostPath mac roots src).getD src else src

theorem asStr_eq {a : String} (reads : v.asStr = some a) : Json.str a = v := by
  cases v <;> cases reads
  rfl

theorem mount_rewritten : Rewritten (under "Source" (within Json.asStr .str (bindSource mac roots m))) m ((topMount mac roots m).getD m) := by
  refine rewritten_under (fun _ _ => asStr_eq) (fun src found => ?_) fun missing => ?_
  · have found : string "Source" m = some src := found
    rw [topMount_eq, found, Option.bind_some, bindSource]
    by_cases like : BindLike m
    · rw [if_pos like, if_pos like]
      cases translateHostPath mac roots src with
      | none => exact .inr ⟨rfl, rfl⟩
      | some g => exact .inl rfl
    · rw [if_neg like, if_neg like]
      exact .inr ⟨rfl, rfl⟩
  · have missing : string "Source" m = none := missing
    rw [topMount_eq, missing, Option.bind_none, ite_self]

theorem mountIssue_eq :
    mountIssue mac roots m = (string "Source" m).bind fun src => if Looked m then issue mac roots src else none := by
  unfold mountIssue
  cases string "Source" m with
  | none => rfl
  | some src =>
    by_cases looked : Looked m
    · rw [Option.bind_some, if_pos looked]
      exact if_pos (Bool.or_eq_true_iff.mpr (looked.imp decide_eq_true decide_eq_true))
    · rw [Option.bind_some, if_neg looked]
      exact if_neg fun one => looked ((Bool.or_eq_true_iff.mp one).imp of_decide_eq_true of_decide_eq_true)

theorem BindLike.looked (like : BindLike m) : Looked m := by
  rcases like with untyped | typed
  · exact .inl (by rw [string, untyped, Option.bind_none])
  · exact .inr typed

theorem mount_iff (passes : mountIssue mac roots m = none) : Mount mac roots m ((topMount mac roots m).getD m) ↔
    ∀ src, string "Source" m = some src → hasPrefix src "/" = true →
      (BindLike m → Straight mac roots src) ∧ (Looked m → ¬ BindLike m → IsGuest roots src) := by
  rw [Mount, sameBut_iff mount_rewritten]
  constructor
  · intro related src found absolute
    obtain ⟨v, present, reads⟩ := Option.bind_eq_some_iff.mp found
    have sound : Looked m → Sound mac roots src (bindSource mac roots m src) := by
      intro looked
      have through := related "Source" v present
      rw [if_pos ⟨rfl, looked⟩, under, if_pos rfl, through_within fun _ _ => Json.str.inj] at through
      exact through src reads
    refine ⟨fun like => ?_, fun looked other => ?_⟩
    · have source := sound like.looked
      rw [mountIssue_eq, found, Option.bind_some, if_pos like.looked, issue_none] at passes
      obtain ⟨⟨guest, translated⟩, -⟩ := passes absolute
      rw [bindSource, if_pos like, translated, Option.getD_some] at source
      exact (sound_translated translated).mp source
    · have source := sound looked
      rw [bindSource, if_neg other] at source
      exact sound_self.mp source absolute
  · intro holds key v present
    by_cases source : key = "Source"
    · rw [source] at present
      rw [under, if_pos source]
      split
      next looked =>
        rw [through_within fun _ _ => Json.str.inj]
        intro src reads
        have found : string "Source" m = some src := Option.bind_eq_some_iff.mpr ⟨v, present, reads⟩
        rw [mountIssue_eq, found, Option.bind_some, if_pos looked.2, issue_none] at passes
        rw [bindSource]
        split
        next like =>
          cases translated : translateHostPath mac roots src with
          | none =>
            refine sound_self.mpr fun absolute => ?_
            obtain ⟨⟨guest, some⟩, -⟩ := passes absolute
            cases translated.symm.trans some
          | some guest =>
            have absolute := (translateHostPath_iff.mp translated).1
            exact (sound_translated translated).mpr ((holds src found absolute).1 like)
        next other => exact sound_self.mpr fun absolute => (holds src found absolute).2 looked.2 other
      next unseen =>
        have other : ¬ BindLike m := fun like => unseen ⟨source, like.looked⟩
        rw [within]
        cases reads : v.asStr with
        | none => rfl
        | some src =>
          rw [Option.map_some, Option.getD_some, bindSource, if_neg other]
          exact asStr_eq reads
    · rw [if_neg fun both => source both.1, under, if_neg source]

/-! ## A body -/

theorem items_eq (written : ∀ v a, read v = some a → write a = v) {items : List Json} {l : List α}
    (reads : items.mapM read = some l) :
    l.map write = items := by
  induction items generalizing l with
  | nil =>
    cases reads
    rfl
  | cons item items ih =>
    rw [List.mapM_cons] at reads
    obtain ⟨a, first, reads⟩ := Option.bind_eq_some_iff.mp reads
    obtain ⟨as, others, same⟩ := Option.bind_eq_some_iff.mp reads
    cases same
    rw [List.map_cons, written item a first, ih others]

theorem ofStrings_eq {l : List String} (reads : strings? v = some l) : ofStrings l = v := by
  cases v with
  | arr items => exact congrArg Json.arr (items_eq (fun _ _ => asStr_eq) reads)
  | _ => cases reads

theorem asObject_eq {ms : Members} (reads : v.asObject = some ms) : Json.obj ms = v := by
  cases v <;> cases reads
  rfl

theorem ofObjects_eq {l : List Members} (reads : objects? v = some l) : ofObjects l = v := by
  cases v with
  | arr items => exact congrArg Json.arr (items_eq (fun _ _ => asObject_eq) reads)
  | _ => cases reads

theorem ofStrings_inj {l l' : List String} (same : ofStrings l = ofStrings l') : l = l' :=
  (List.map_inj_right fun _ _ => Json.str.inj).mp (Json.arr.inj same)

theorem ofObjects_inj {l l' : List Members} (same : ofObjects l = ofObjects l') : l = l' :=
  (List.map_inj_right fun _ _ => Json.obj.inj).mp (Json.arr.inj same)

variable (mac roots) in
def translated (m : Members) : Members := (topMount mac roots m).getD m

variable (mac roots) in
/-- What the translation makes of what stands under a name. -/
def inner (key : String) (v : Json) : Json :=
  under "Mounts" (within objects? ofObjects (List.map (translated mac roots))) key
    (under "Binds" (within strings? ofStrings (List.map (translateBindsEntry mac roots))) key v)

variable (mac roots ms) in
theorem binds_rewritten : Rewritten (under "Binds" (within strings? ofStrings (List.map (translateBindsEntry mac roots)))) ms
    ((translateBinds mac roots ms).getD ms) := by
  refine rewritten_under (fun _ _ => ofStrings_eq) (fun l found => ?_) fun missing => ?_
  · have changes : translateBinds mac roots ms =
        (guard (l.any fun b => translateBindsEntry mac roots b ≠ b) : Option Unit).bind fun _ =>
          some (ms.put "Binds" (.arr (l.map fun b => .str (translateBindsEntry mac roots b)))) := by
      rw [translateBinds, found]
      rfl
    rw [changes, ofStrings, List.map_map, guard]
    split
    · exact .inl rfl
    next fixed =>
      refine .inr ⟨rfl, (List.map_congr_left fun b inside => ?_).trans (List.map_id' l)⟩
      have still := List.any_eq_false.mp (Bool.eq_false_iff.mpr fixed) b inside
      exact Decidable.not_not.mp fun differs => still (decide_eq_true differs)
  · rw [translateBinds, missing]
    rfl

variable (mac roots ms) in
theorem mounts_rewritten {mount : Members → Option Members} (same : ∀ m, mount m = topMount mac roots m) :
    Rewritten (under "Mounts" (within objects? ofObjects (List.map (translated mac roots)))) ms ((translateMounts mount ms).getD ms) := by
  obtain rfl : mount = topMount mac roots := funext same
  refine rewritten_under (fun _ _ => ofObjects_eq) (fun l found => ?_) fun missing => ?_
  · have changes : translateMounts (topMount mac roots) ms =
      (guard (l.any fun m => (topMount mac roots m).isSome) : Option Unit).bind fun _ =>
        some (ms.put "Mounts" (.arr (l.map fun m => .obj (translated mac roots m)))) := by
      rw [translateMounts, found]
      rfl
    rw [changes, ofObjects, List.map_map, guard]
    split
    · exact .inl rfl
    next fixed =>
      refine .inr ⟨rfl, (List.map_congr_left fun m inside => ?_).trans (List.map_id' l)⟩
      have still := List.any_eq_false.mp (Bool.eq_false_iff.mpr fixed) m inside
      rw [translated, Option.not_isSome_iff_eq_none.mp still, Option.getD_none]
  · rw [translateMounts, missing]
    rfl

variable (ms) in
theorem config_rewritten (change : Members → Option Members) :
    Rewritten (under "HostConfig" (within Json.asObject .obj fun h => (change h).getD h)) ms
      ((inHostConfig change ms).getD ms) := by
  refine rewritten_under (fun _ _ => asObject_eq) (fun h found => ?_) fun missing => ?_
  · have changes : inHostConfig change ms = (change h).map fun h' => ms.put "HostConfig" (.obj h') := by
      rw [inHostConfig, object, found]
      show (change h).bind _ = _
      cases change h <;> rfl
    rw [changes]
    cases change h with
    | none => exact .inr ⟨rfl, rfl⟩
    | some h' => exact .inl rfl
  · rw [inHostConfig, object, missing]
    rfl

/-- The loop over the places. What it says is unchanged is the body as it was. -/
theorem attempts (stages : List (Members → Option Members)) (sofar : Members × Bool) :
    (stages.foldl attempt sofar).1 = stages.foldl (fun json stage => (stage json).getD json) sofar.1 ∧
      ((stages.foldl attempt sofar).2 = false → sofar.2 = false ∧ (stages.foldl attempt sofar).1 = sofar.1) := by
  induction stages generalizing sofar with
  | nil => exact ⟨rfl, fun unchanged => ⟨unchanged, rfl⟩⟩
  | cons stage stages ih =>
    rw [List.foldl_cons, List.foldl_cons]
    have goes := ih (attempt sofar stage)
    cases made : stage sofar.1 with
    | none =>
      have same : attempt sofar stage = sofar := by rw [attempt, made]
      rw [same] at goes ⊢
      exact goes
    | some new =>
      have new : attempt sofar stage = (new, true) := by rw [attempt, made]
      rw [new] at goes ⊢
      exact ⟨goes.1, fun unchanged => by cases (goes.2 unchanged).1⟩

theorem forwarded_eq : forwarded mac roots body = (places mac roots).foldl (fun json place => (place json).getD json) body := by
  have loop := attempts (places mac roots) (body, false)
  rw [forwarded, translateCreateBody]
  rw [← loop.1]
  split
  · rfl
  next unchanged => exact (loop.2 (Bool.eq_false_iff.mpr unchanged)).2.symm

variable (mac roots) in
def outer (key : String) (v : Json) : Json :=
  if key = "HostConfig" then
    within Json.asObject .obj (fun h =>
      let h := (translateBinds mac roots h).getD h
      (translateMounts (hostMount mac roots) h).getD h) v
  else inner mac roots key v

theorem forwarded_rewritten : Rewritten (outer mac roots) body (forwarded mac roots body) := by
  rw [forwarded_eq]
  have all := (config_rewritten body (translateBinds mac roots)).trans (config_rewritten _ (translateMounts (hostMount mac roots)))
    |>.trans (mounts_rewritten mac roots _ fun _ => rfl) |>.trans (binds_rewritten mac roots _)
  refine all.congr fun key v => ?_
  by_cases config : key = "HostConfig"
  · rw [outer, if_pos config, config]
    show within _ _ _ (within _ _ _ v) = _
    rw [within, within, within]
    cases reads : v.asObject with
    | none => rw [Option.map_none, Option.getD_none, reads, Option.map_none, Option.map_none]
    | some h => rfl
  · rw [outer, if_neg config, inner, under, under, under, under, if_neg config, if_neg config]
    split
    next binds => rw [if_neg (binds ▸ by decide), under, if_neg (binds ▸ by decide), under, if_pos binds]
    next other => rw [under, under, if_neg other]

theorem listed_iff {l : List α} {R : α → α → Prop} : List.Forall₂ R l (l.map f) ↔ ∀ a ∈ l, R a (f a) := by
  rw [List.forall₂_map_right_iff, List.forall₂_same]

theorem place_iff {reads : Json → Option (List α)} {writes : List α → Json} (apart : ∀ l l', writes l = writes l' → l = l') :
    (∀ v, ms.subscript key = some v → Through reads writes (List.Forall₂ R) v (within reads writes (List.map f) v)) ↔
      ∀ a ∈ ((ms.subscript key).bind reads).getD [], R a (f a) := by
  cases ms.subscript key with
  | none => exact iff_of_true nofun fun _ inside => by cases inside
  | some v =>
    rw [Option.bind_some]
    constructor
    · intro through a inside
      cases found : reads v with
      | none =>
        rw [found] at inside
        cases inside
      | some l =>
        rw [found] at inside
        exact listed_iff.mp ((through_within apart).mp (through v rfl) l found) a inside
    · rintro each _ ⟨⟩
      refine (through_within apart).mpr fun l found => listed_iff.mpr ?_
      rwa [found] at each

theorem inner_iff : (∀ key v, ms.subscript key = some v → Inner mac roots key v (inner mac roots key v)) ↔
    (∀ b ∈ binds ms, Entry mac roots b (translateBindsEntry mac roots b)) ∧
      ∀ m ∈ mounts ms, Mount mac roots m (translated mac roots m) := by
  rw [binds, mounts, ← place_iff fun _ _ => ofStrings_inj, ← place_iff fun _ _ => ofObjects_inj]
  constructor
  · intro related
    refine ⟨fun v present => ?_, fun v present => ?_⟩
    · have through := related "Binds" v present
      rwa [Inner, if_pos rfl, inner, under, if_neg (by decide), under, if_pos rfl] at through
    · have through := related "Mounts" v present
      rwa [Inner, if_neg (by decide), if_pos rfl, inner, under, if_pos rfl, under, if_neg (by decide)] at through
  · rintro ⟨ofBinds, ofMounts⟩ key v present
    rw [Inner, inner, under, under]
    split
    next binds =>
      rw [if_neg (binds ▸ by decide)]
      exact ofBinds v (binds ▸ present)
    next =>
      split
      next mounts => exact ofMounts v (mounts ▸ present)
      next => rfl

theorem config_iff : (∀ key v, body.subscript key = some v → Outer mac roots key v (outer mac roots key v)) ↔
    (∀ key v, ((object "HostConfig" body).getD []).subscript key = some v → Inner mac roots key v (inner mac roots key v)) ∧
      ∀ key v, body.subscript key = some v → Inner mac roots key v (inner mac roots key v) := by
  have config : ∀ h : Members, Rewritten (inner mac roots) h
      ((translateMounts (hostMount mac roots) ((translateBinds mac roots h).getD h)).getD ((translateBinds mac roots h).getD h)) :=
    fun h => (binds_rewritten mac roots h).trans (mounts_rewritten mac roots _ fun _ => hostMount_eq)
  have other : ∀ v, Inner mac roots "HostConfig" v (inner mac roots "HostConfig" v) := by
    intro v
    rw [Inner, if_neg (by decide), if_neg (by decide), inner, under, if_neg (by decide), under, if_neg (by decide)]
  constructor
  · intro related
    constructor
    · cases found : object "HostConfig" body with
      | none => exact fun _ _ present => by cases present
      | some h =>
        obtain ⟨v, present, reads⟩ := Option.bind_eq_some_iff.mp found
        have through := related "HostConfig" v present
        rw [Outer, if_pos rfl, outer, if_pos rfl, through_within fun _ _ => Json.obj.inj] at through
        exact (sameBut_iff (config h)).mp (through h reads)
    · intro key v present
      by_cases config : key = "HostConfig"
      · exact config ▸ other v
      · have through := related key v present
        rwa [Outer, if_neg config, outer, if_neg config] at through
  · rintro ⟨inside, top⟩ key v present
    by_cases named : key = "HostConfig"
    · rw [Outer, if_pos named, outer, if_pos named, through_within fun _ _ => Json.obj.inj]
      intro h reads
      have found : object "HostConfig" body = some h := Option.bind_eq_some_iff.mpr ⟨v, named ▸ present, reads⟩
      rw [found, Option.getD_some] at inside
      exact (sameBut_iff (config h)).mpr inside
    · rw [Outer, if_neg named, outer, if_neg named]
      exact top key v present

theorem firstInvalid_none : firstInvalidHostPath mac roots body = none ↔
    (∀ b ∈ allBinds body, bindIssue mac roots b = none) ∧ ∀ m ∈ allMounts body, mountIssue mac roots m = none := by
  rw [allBinds, allMounts, List.forall_mem_append, List.forall_mem_append, firstInvalidHostPath]
  simp only [Option.orElse_eq_orElse, Option.orElse_eq_or, Option.or_eq_none_iff, List.findSome?_eq_none_iff]
  exact ⟨fun ⟨a, b, c, d⟩ => ⟨⟨a, d⟩, b, c⟩, fun ⟨⟨a, d⟩, b, c⟩ => ⟨a, b, c, d⟩⟩

/-- The bodies agree when what is translated in them does, one by one. -/
theorem agree_each : Agree mac roots body (forwarded mac roots body) ↔
    (∀ b ∈ allBinds body, Entry mac roots b (translateBindsEntry mac roots b)) ∧
      ∀ m ∈ allMounts body, Mount mac roots m (translated mac roots m) := by
  rw [Agree, sameBut_iff forwarded_rewritten, config_iff, inner_iff, inner_iff, allBinds, allMounts, List.forall_mem_append,
    List.forall_mem_append]
  exact and_and_and_comm

/-- **The check and the translation agree** on a body that passes the check exactly when it is regular. -/
theorem agree_iff (mac : Mac File) (roots : List SharedRoot) (body : Members)
    (passes : firstInvalidHostPath mac roots body = none) :
    Agree mac roots body (forwarded mac roots body) ↔ Regular mac roots body := by
  obtain ⟨ofBinds, ofMounts⟩ := firstInvalid_none.mp passes
  rw [agree_each]
  constructor
  · rintro ⟨binds, mounts⟩
    exact ⟨fun b inside => (entry_iff (ofBinds b inside)).mp (binds b inside),
      fun m inside => (mount_iff (ofMounts m inside)).mp (mounts m inside)⟩
  · intro regular
    exact ⟨fun b inside => (entry_iff (ofBinds b inside)).mpr (regular.binds b inside),
      fun m inside => (mount_iff (ofMounts m inside)).mpr (regular.mounts m inside)⟩

/-! ## Two bodies -/

def physical (p : String) : String :=
  match stripPrefix "/tmp" p with
  | some rest => if rest = "" ∨ hasPrefix rest "/" = true then "/private/tmp" ++ rest else p
  | none => p

/-- All paths lead to files of their own, but for the link at `/tmp`. None has a segment that `URL.standardized` takes out. -/
def plain : Mac String where
  standardized := id
  removes := fun _ _ _ mem => mem
  lookup p := some (physical p)
  tmp := by
    intro rest tail
    have behind : rest = "" ∨ hasPrefix rest "/" = true := tail.imp id fun below => hasPrefix_iff.mpr below
    have apart : stripPrefix "/tmp" ("/private/tmp" ++ rest) = none := by
      cases strips : stripPrefix "/tmp" ("/private/tmp" ++ rest) with
      | none => rfl
      | some t => exact absurd (Wire.eq_of_stripPrefix strips).symm (tmp_apart t rest)
    rw [physical, physical, Wire.stripPrefix_append, apart]
    exact congrArg some (if_pos behind)

/-- The shared roots that the bridge is given. -/
def sharedRoots : List SharedRoot := [⟨"/Users", "/mnt/harpoon-host/Users"⟩, ⟨"/private/tmp", "/mnt/harpoon-host/tmp"⟩]

def create (binds : List String) (mounts : List Members) : Members :=
  [("Image", .str "nginx"), ("HostConfig", .obj [("Binds", ofStrings binds), ("Mounts", ofObjects mounts)])]

/-- A bind below the temporary directory, a volume, and a mount of a user's directory. -/
def usual : Members :=
  create ["/tmp/x:/data:ro", "cache:/cache"] [[("Type", .str "bind"), ("Source", .str "/Users/u/site"), ("Target", .str "/site")]]

theorem agree_iff_usual : Agree plain sharedRoots usual (forwarded plain sharedRoots usual) := by
  refine (agree_iff plain sharedRoots usual (by decide +kernel)).mpr ⟨?_, ?_⟩
  · intro b _ src t _ _
    refine ⟨fun r rest _ _ => .inr rfl, fun r longest => ?_⟩
    have frees : ∀ r ∈ sharedRoots, Free ':' r.guestPath := by decide
    exact frees r longest.mem
  · intro m inside src _ _
    have like : ∀ m ∈ allMounts usual, BindLike m := by decide
    exact ⟨fun _ r rest _ _ => .inr rfl, fun _ other => absurd (like m inside) other⟩

/-- A mount whose type is `null`. -/
def nullType : Members := create [] [[("Type", .null), ("Source", .str "/Users/u/site"), ("Target", .str "/site")]]

theorem disagree_null : ¬ ∀ (mac : Mac String) (roots : List SharedRoot) (body : Members),
    firstInvalidHostPath mac roots body = none →
    Agree mac roots body (forwarded mac roots body) := by
  intro agree
  have passes : firstInvalidHostPath plain sharedRoots nullType = none := by decide +kernel
  have each := (agree_each.mp (agree plain sharedRoots nullType passes)).2 _ List.mem_cons_self
  have inside := ((mount_iff ((firstInvalid_none.mp passes).2 _ List.mem_cons_self)).mp each "/Users/u/site" rfl (by decide)).2 (by decide) (by decide)
  obtain ⟨r, shared, rest, -, path⟩ := inside
  have below : ∀ r ∈ sharedRoots, hasPrefix "/Users/u/site" r.guestPath = false := by decide
  cases (below r shared).symm.trans (hasPrefix_iff.mpr ⟨rest, path⟩)

end Harpoon.HostPaths
