import Harpoon.Deploy.Ledger

/-!
# What the ledger keeps

`Applied` says once what an accepted record does; every law here is a case analysis of it.
`Ledger.Sound` is what every ledger built by `apply` satisfies, and `Entry.Later` what may become of
an entry while more records arrive: its identity stays, an id once set stays, and an entry that is
settled stays as it is.
-/

namespace Harpoon.Deploy

namespace Ledger

variable {l l' : Ledger} {r : LedgerRecord} {e e' : Entry} {d : DeploymentId} {k : ResourceKey}

/-- The record was accepted. -/
def Accepts (l : Ledger) (r : LedgerRecord) : Prop := (l.apply r).1 = .ok ()

instance (l : Ledger) (r : LedgerRecord) : Decidable (l.Accepts r) :=
  match h : (l.apply r).1 with
  | .ok () => .isTrue h
  | .error _ => .isFalse fun ok => nomatch h.symm.trans ok

/-- The entry an accepted intent adds. -/
def intended (k : ResourceKey) (app : ApplicationId) (d : DeploymentId) (disposition : Disposition)
    (atMs : Nat) : Entry where
  key := k
  app := app
  deployment := d
  disposition := disposition
  id := none
  state := .intended
  cleanupAttempts := 0
  cleanupOutstanding := false
  intentMs := atMs

/-- What an accepted record found, and what it did. -/
inductive Applied (l : Ledger) : LedgerRecord → Ledger → Prop where
  | intent {k app d disposition atMs} (fresh : l.find d k = none)
      (free : l.leaseHolder d k = none) :
      Applied l (.intent k app d disposition atMs) (l.push (intended k app d disposition atMs))
  | receipt {k d id atMs e} (found : l.find d k = some e) (noId : e.id = none)
      (state : e.state = .intended) :
      Applied l (.receipt k d id atMs)
        (l.modifyEntry d k fun e => { e with id := some id, state := .created })
  | receiptAgain {k d id atMs e} (found : l.find d k = some e) (same : e.id = some id) :
      Applied l (.receipt k d id atMs) l
  | attempt {k d atMs e} (found : l.find d k = some e) (unsettled : e.isSettled = false) :
      Applied l (.cleanupAttempt k d atMs)
        (l.modifyEntry d k fun e =>
          { e with cleanupAttempts := e.cleanupAttempts + 1, cleanupOutstanding := true })
  | result {k d outcome atMs e} (found : l.find d k = some e)
      (outstanding : e.cleanupOutstanding = true)
      (conflict : isConflict outcome = true → mayConflict e = true) :
      Applied l (.cleanupResult k d outcome atMs)
        (l.modifyEntry d k fun e => { e with cleanupOutstanding := false, state := stateOf outcome })

/-- A record is refused and the ledger stays as it was, or it is accepted and `Applied` says what it
did. -/
theorem apply_spec (l : Ledger) (r : LedgerRecord) :
    (∃ x, l.apply r = (.error x, l)) ∨ ∃ l', l.apply r = (.ok (), l') ∧ Applied l r l' := by
  cases r with
  | intent k app d disposition atMs =>
    by_cases fresh : (l.find d k).isSome = true
    · exact .inl ⟨_, if_pos fresh⟩
    cases holder : l.leaseHolder d k with
    | some h => exact .inl ⟨_, by simp only [apply, if_neg fresh, holder]; rfl⟩
    | none =>
      refine .inr ⟨_, by simp only [apply, if_neg fresh, holder]; rfl, .intent ?_ holder⟩
      exact Option.not_isSome_iff_eq_none.mp fresh
  | receipt k d id atMs =>
    cases found : l.find d k with
    | none => exact .inl ⟨_, by simp only [apply, found]; rfl⟩
    | some e =>
      cases recorded : e.id with
      | none =>
        cases state : e.state with
        | intended =>
          exact .inr ⟨_, by simp only [apply, found, recorded, state], .receipt found recorded state⟩
        | created | released _ | cleanupFailed _ | cleanupConflict _ _ | refused _ =>
          exact .inl ⟨_, by simp only [apply, found, recorded, state]; rfl⟩
      | some existing =>
        by_cases same : existing = id
        · refine .inr ⟨_, by simp only [apply, found, recorded, if_pos same]; rfl, ?_⟩
          exact .receiptAgain found (same ▸ recorded)
        · exact .inl ⟨_, by simp only [apply, found, recorded, if_neg same]; rfl⟩
  | cleanupAttempt k d atMs =>
    cases found : l.find d k with
    | none => exact .inl ⟨_, by simp only [apply, found]; rfl⟩
    | some e =>
      by_cases settled : e.isSettled = true
      · exact .inl ⟨_, by simp only [apply, found, if_pos settled]; rfl⟩
      · refine .inr ⟨_, by simp only [apply, found, if_neg settled], .attempt found ?_⟩
        exact Bool.not_eq_true _ ▸ settled
  | cleanupResult k d outcome atMs =>
    cases found : l.find d k with
    | none => exact .inl ⟨_, by simp only [apply, found]; rfl⟩
    | some e =>
      by_cases stray : (!e.cleanupOutstanding) = true
      · exact .inl ⟨_, by simp only [apply, found, if_pos stray]; rfl⟩
      by_cases odd : (isConflict outcome && !mayConflict e) = true
      · exact .inl ⟨_, by simp only [apply, found, if_neg stray, if_pos odd]; rfl⟩
      refine .inr ⟨_, by simp only [apply, found, if_neg stray, if_neg odd]; rfl, ?_⟩
      refine .result found (by simpa using stray) fun conflict => ?_
      simpa [conflict] using odd

/-- `Applied` holds only of accepted records. -/
theorem Applied.eq (h : Applied l r l') : l.apply r = (.ok (), l') := by
  cases h with
  | intent fresh free => simp only [apply, fresh, free]; rfl
  | receipt found noId state => simp only [apply, found, noId, state]
  | receiptAgain found same => simp only [apply, found, same, if_true]
  | attempt found unsettled => simp only [apply, found, unsettled]; rfl
  | result found outstanding conflict =>
    simp only [apply, found, outstanding]
    cases isC : isConflict _ with
    | false => rfl
    | true => simp only [conflict isC]; rfl

theorem accepts_iff : l.Accepts r ↔ ∃ l', Applied l r l' := by
  constructor
  · intro ok
    rcases l.apply_spec r with ⟨x, refused⟩ | ⟨l', _, applied⟩
    · rw [Accepts, refused] at ok; cases ok
    · exact ⟨l', applied⟩
  · rintro ⟨l', applied⟩
    rw [Accepts, applied.eq]

/-- A refused record leaves the ledger as it was. -/
theorem apply_refused (h : ¬ l.Accepts r) : (l.apply r).2 = l := by
  rcases l.apply_spec r with ⟨x, refused⟩ | ⟨l', accepted, _⟩
  · rw [refused]
  · exact absurd (by rw [Accepts, accepted]) h

end Ledger

/-! ## What every entry and every ledger satisfies -/

/-- An entry whose state and fields agree. -/
structure Entry.Sound (e : Entry) : Prop where
  settled : e.isSettled = true → e.cleanupOutstanding = false
  intended : e.state = .intended → e.id = none
  created : e.state = .created → e.id.isSome
  conflict : ∀ c m, e.state = .cleanupConflict c m → Ledger.mayConflict e = true

theorem Entry.Sound.unsettled {e : Entry} (sound : e.Sound)
    (outstanding : e.cleanupOutstanding = true) : e.isSettled = false := by
  cases h : e.isSettled with
  | false => rfl
  | true => rw [sound.settled h] at outstanding; cases outstanding

/-- Entries are named apart, no port is leased twice, and every entry is sound. -/
structure Ledger.Sound (l : Ledger) : Prop where
  unique : Keyed.Unique Entry.ref l.entries
  entry : ∀ e ∈ l.entries, e.Sound
  lease : ∀ e ∈ l.entries, ∀ e' ∈ l.entries, e.key.kind = .portLease → e'.key = e.key →
    e.isReleased = false → e'.isReleased = false → e' = e

/-- What may become of an entry. -/
structure Entry.Later (e e' : Entry) : Prop where
  ref : e'.ref = e.ref
  app : e'.app = e.app
  disposition : e'.disposition = e.disposition
  id : ∀ i, e.id = some i → e'.id = some i
  settled : e.isSettled = true → e' = e

namespace Entry.Later

variable {e e' e'' : Entry}

theorem refl (e : Entry) : e.Later e := ⟨rfl, rfl, rfl, fun _ h => h, fun _ => rfl⟩

theorem trans (h : e.Later e') (h' : e'.Later e'') : e.Later e'' where
  ref := h'.ref.trans h.ref
  app := h'.app.trans h.app
  disposition := h'.disposition.trans h.disposition
  id i hi := h'.id i (h.id i hi)
  settled hs := by
    have same := h.settled hs
    exact (h'.settled (same ▸ hs)).trans same

end Entry.Later

namespace Ledger

variable {l l' : Ledger} {r : LedgerRecord} {e e' : Entry} {d : DeploymentId} {k : ResourceKey}
  {f : Entry → Entry}

theorem find_mem (found : l.find d k = some e) : e ∈ l.entries := Keyed.lookup_mem found

theorem find_ref (found : l.find d k = some e) : e.ref = (d, k) := Keyed.lookup_key found

theorem find_key (found : l.find d k = some e) : e.key = k := congrArg Prod.snd (find_ref found)

theorem Sound.find_of_mem (sound : l.Sound) (mem : e ∈ l.entries) :
    l.find e.deployment e.key = some e := sound.unique.lookup_of_mem mem

theorem leaseHolder_none (lease : k.kind = .portLease) (free : l.leaseHolder d k = none)
    (mem : e ∈ l.entries) (same : e.key = k) (held : e.isReleased = false) : e.deployment = d := by
  rw [leaseHolder, if_pos lease] at free
  have := List.find?_eq_none.mp free e mem
  simpa [same, held] using this

theorem sound_new : Ledger.new.Sound :=
  ⟨List.nodup_nil, fun _ h => (nomatch h), fun _ h => (nomatch h)⟩

/-- Changing an entry that is not released, into a sound one, keeps the ledger sound. -/
theorem Sound.modifyEntry (sound : l.Sound) (found : l.find d k = some e)
    (live : e.isReleased = false) (keeps : ∀ x, (f x).ref = x.ref) (after : (f e).Sound) :
    (l.modifyEntry d k f).Sound := by
  have unique : Keyed.Unique Entry.ref (l.modifyEntry d k f).entries :=
    sound.unique.modify fun x _ => keeps x
  -- Every entry was one with the same name before, which was no more released than it is now.
  have before : ∀ y ∈ (l.modifyEntry d k f).entries,
      ∃ x ∈ l.entries, x.ref = y.ref ∧ (y.isReleased = false → x.isReleased = false) := by
    intro y hy
    rcases Keyed.mem_modify found hy with rfl | hy
    · exact ⟨e, find_mem found, (keeps e).symm, fun _ => live⟩
    · exact ⟨y, hy, rfl, id⟩
  refine ⟨unique, ?_, ?_⟩
  · intro y hy
    rcases Keyed.mem_modify found hy with rfl | hy
    · exact after
    · exact sound.entry y hy
  · intro y hy y' hy' lease same held held'
    obtain ⟨x, hx, ref, free⟩ := before y hy
    obtain ⟨x', hx', ref', free'⟩ := before y' hy'
    have key : x.key = y.key := congrArg Prod.snd ref
    have key' : x'.key = y'.key := congrArg Prod.snd ref'
    have one : x' = x := sound.lease x hx x' hx' (key ▸ lease) (by rw [key', key, same])
      (free held) (free' held')
    exact unique.eq_of_key hy' hy (by rw [← ref', ← ref, one])

/-- Adding an entry that is named apart and leases no leased port keeps the ledger sound. -/
theorem Sound.push (sound : l.Sound) (fresh : l.find d k = none) (free : l.leaseHolder d k = none)
    (ref : e.ref = (d, k)) (new : e.Sound) : (l.push e).Sound := by
  have key : e.key = k := congrArg Prod.snd ref
  have dep : e.deployment = d := congrArg Prod.fst ref
  have absent : ∀ x ∈ l.entries, x.ref ≠ e.ref := fun x hx => ref ▸ Keyed.lookup_none_iff.mp fresh x hx
  -- An entry that leases the same port would have the same name.
  have alone : ∀ x ∈ l.entries, e.key.kind = .portLease → x.key = e.key → x.isReleased = true := by
    intro x hx lease same
    cases held : x.isReleased with
    | true => rfl
    | false =>
      have owner := leaseHolder_none (key ▸ lease) free hx (same.trans key) held
      exact absurd (Prod.ext (owner.trans dep.symm) same) (absent x hx)
  refine ⟨sound.unique.concat (ref ▸ fresh), ?_, ?_⟩
  · intro x hx
    rcases List.mem_append.mp hx with hx | hx
    · exact sound.entry x hx
    · rw [List.mem_singleton.mp hx]; exact new
  · intro x hx x' hx' lease same held held'
    rcases List.mem_append.mp hx with old | new <;> rcases List.mem_append.mp hx' with old' | new'
    · exact sound.lease x old x' old' lease same held held'
    · have here := List.mem_singleton.mp new'
      rw [alone x old (by rw [← here, same]; exact lease) (by rw [← here, same])] at held
      cases held
    · have here := List.mem_singleton.mp new
      rw [alone x' old' (here ▸ lease) (here ▸ same)] at held'
      cases held'
    · rw [List.mem_singleton.mp new, List.mem_singleton.mp new']

/-- Step lemma: an accepted record keeps the ledger sound. -/
theorem Applied.sound (h : Applied l r l') (sound : l.Sound) : l'.Sound := by
  cases h with
  | intent fresh free =>
    refine sound.push fresh free rfl ⟨fun h => (nomatch h), fun _ => rfl, ?_, ?_⟩
    · intro h; cases h
    · intro c m h; cases h
  | receipt found noId state =>
    refine sound.modifyEntry found (by rw [Entry.isReleased, state]) (fun _ => rfl)
      ⟨?_, ?_, fun _ => rfl, ?_⟩
    · intro h; cases h
    · intro h; cases h
    · intro c m h; cases h
  | receiptAgain found same => exact sound
  | attempt found unsettled =>
    have old := sound.entry _ (find_mem found)
    have live := (Bool.or_eq_false_iff.mp unsettled).1
    refine sound.modifyEntry found live (fun _ => rfl) ⟨?_, old.intended, old.created, old.conflict⟩
    intro h
    exact absurd (h.symm.trans unsettled) (by decide)
  | @result k d outcome atMs e found outstanding conflict =>
    have old := sound.entry _ (find_mem found)
    have unsettled := old.unsettled outstanding
    have live := (Bool.or_eq_false_iff.mp unsettled).1
    refine sound.modifyEntry found live (fun _ => rfl) ⟨fun _ => rfl, ?_, ?_, ?_⟩
    · intro h; cases outcome <;> cases h
    · intro h; cases outcome <;> cases h
    · intro c m h
      cases outcome with
      | conflict c' m' => exact conflict rfl
      | removed | alreadyAbsent | failed _ | refused _ => cases h

/-- An entry that is changed by name, and the entries with other names. -/
theorem later_modifyEntry (found : l.find d k = some e) (sound : l.Sound)
    (keeps : ∀ x, (f x).ref = x.ref) (later : e.Later (f e)) {x : Entry} (mem : x ∈ l.entries) :
    ∃ x' ∈ (l.modifyEntry d k f).entries, x.Later x' := by
  by_cases same : x.ref = (d, k)
  · have one : x = e := sound.unique.eq_of_key mem (find_mem found) (same.trans (find_ref found).symm)
    have there := Keyed.lookup_modify_self (fun x _ => keeps x) found
    exact ⟨f e, Keyed.lookup_mem there, one ▸ later⟩
  · exact ⟨x, Keyed.mem_modify_of_ne mem same, .refl x⟩

/-- Step lemma: an accepted record lets every entry become only what it may. -/
theorem Applied.later (h : Applied l r l') (sound : l.Sound) (mem : e ∈ l.entries) :
    ∃ e' ∈ l'.entries, e.Later e' := by
  cases h with
  | intent fresh free => exact ⟨e, List.mem_append_left _ mem, .refl e⟩
  | receipt found noId state =>
    refine later_modifyEntry found sound ?_ ⟨?_, ?_, ?_, ?_, ?_⟩ mem <;> try exact rfl
    · exact fun _ => rfl
    · intro i h; rw [noId] at h; cases h
    · intro h; simp [Entry.isSettled, Entry.isReleased, Entry.isRefused, state] at h
  | receiptAgain found same => exact ⟨e, mem, .refl e⟩
  | attempt found unsettled =>
    refine later_modifyEntry found sound ?_ ⟨?_, ?_, ?_, fun _ h => h, ?_⟩ mem <;> try exact rfl
    · exact fun _ => rfl
    · intro h; rw [unsettled] at h; cases h
  | result found outstanding conflict =>
    refine later_modifyEntry found sound ?_ ⟨?_, ?_, ?_, fun _ h => h, ?_⟩ mem <;> try exact rfl
    · exact fun _ => rfl
    · intro h
      rw [(sound.entry _ (find_mem found)).settled h] at outstanding
      cases outstanding

/-! ## Whole sequences of records -/

/-- The ledger after a sequence of records, the refused ones included. -/
def absorb (l : Ledger) (records : List LedgerRecord) : Ledger :=
  records.foldl (fun l r => (l.apply r).2) l

/-- Every ledger of the program: the empty one, after some records. -/
def after (records : List LedgerRecord) : Ledger := new.absorb records

@[simp] theorem absorb_nil : l.absorb [] = l := rfl

@[simp] theorem absorb_cons {rs : List LedgerRecord} :
    l.absorb (r :: rs) = (l.apply r).2.absorb rs := rfl

theorem absorb_append {rs more : List LedgerRecord} :
    l.absorb (rs ++ more) = (l.absorb rs).absorb more := List.foldl_append

/-- One record: nothing happened, or `Applied` says what did. -/
theorem apply_cases (l : Ledger) (r : LedgerRecord) :
    (¬ l.Accepts r ∧ (l.apply r).2 = l) ∨ Applied l r (l.apply r).2 := by
  rcases l.apply_spec r with ⟨x, refused⟩ | ⟨l', accepted, applied⟩
  · exact .inl ⟨by rw [Accepts, refused]; exact nofun, by rw [refused]⟩
  · exact .inr (by rw [accepted]; exact applied)

/-- Run lemma: a sound ledger stays sound. -/
theorem Sound.absorb (sound : l.Sound) (rs : List LedgerRecord) : (l.absorb rs).Sound := by
  induction rs generalizing l with
  | nil => exact sound
  | cons r rs ih =>
    rw [absorb_cons]
    rcases l.apply_cases r with ⟨_, same⟩ | applied
    · rw [same]; exact ih sound
    · exact ih (applied.sound sound)

theorem sound_after (records : List LedgerRecord) : (after records).Sound :=
  sound_new.absorb records

/-- Run lemma: an entry stays in the ledger and becomes only what it may. -/
theorem Sound.absorb_later (sound : l.Sound) (rs : List LedgerRecord) (mem : e ∈ l.entries) :
    ∃ e' ∈ (l.absorb rs).entries, e.Later e' := by
  induction rs generalizing l e with
  | nil => exact ⟨e, mem, .refl e⟩
  | cons r rs ih =>
    rw [absorb_cons]
    rcases l.apply_cases r with ⟨_, same⟩ | applied
    · rw [same]; exact ih sound mem
    · obtain ⟨e₁, mem₁, later₁⟩ := applied.later sound mem
      obtain ⟨e₂, mem₂, later₂⟩ := ih (applied.sound sound) mem₁
      exact ⟨e₂, mem₂, later₁.trans later₂⟩

/-! ## Attempts and results -/

/-- An attempt was recorded for the entry and its result was not. -/
def outstanding (l : Ledger) (d : DeploymentId) (k : ResourceKey) : Bool :=
  (l.find d k).any (·.cleanupOutstanding)

/-- A cleanup record of one entry. -/
def cleans (d : DeploymentId) (k : ResourceKey) : LedgerRecord → Bool
  | .cleanupAttempt k' d' _ | .cleanupResult k' d' _ _ => d' = d && k' = k
  | _ => false

/-- No record of the sequence is an accepted cleanup record of the entry. -/
def Quiet (d : DeploymentId) (k : ResourceKey) : Ledger → List LedgerRecord → Prop
  | _, [] => True
  | l, r :: rs => ¬ (l.Accepts r ∧ cleans d k r = true) ∧ Quiet d k (l.apply r).2 rs

theorem find_modifyEntry_self (keeps : ∀ x, (f x).ref = x.ref) (found : l.find d k = some e) :
    (l.modifyEntry d k f).find d k = some (f e) :=
  Keyed.lookup_modify_self (fun x _ => keeps x) found

theorem find_modifyEntry_of_ne {d' : DeploymentId} {k' : ResourceKey}
    (keeps : ∀ x, (f x).ref = x.ref) (other : (d', k') ≠ (d, k)) :
    (l.modifyEntry d k f).find d' k' = l.find d' k' :=
  Keyed.lookup_modify_of_ne (fun x _ => keeps x) other

theorem find_push_of_some (found : l.find d k = some e) : (l.push e').find d k = some e :=
  Keyed.lookup_concat_of_some found

theorem find_push_of_none (absent : l.find d k = none) :
    (l.push e').find d k = if e'.ref = (d, k) then some e' else none :=
  Keyed.lookup_concat_of_none absent

/-- A change that leaves the flag of every entry as it is leaves what is outstanding as it is. -/
theorem outstanding_modifyEntry {d' : DeploymentId} {k' : ResourceKey}
    (keeps : ∀ x, (f x).ref = x.ref) (found : l.find d' k' = some e)
    (flag : (d, k) = (d', k') → (f e).cleanupOutstanding = e.cleanupOutstanding) :
    (l.modifyEntry d' k' f).outstanding d k = l.outstanding d k := by
  by_cases same : (d, k) = (d', k')
  · cases same
    simp only [outstanding, find_modifyEntry_self keeps found, found, Option.any_some, flag rfl]
  · simp only [outstanding, find_modifyEntry_of_ne keeps same]

/-- Step lemma: an outstanding attempt was just made, or it was outstanding before and the record
is no cleanup record of the entry. -/
theorem outstanding_apply (h : (l.apply r).2.outstanding d k = true) :
    (l.outstanding d k = true ∧ ¬ (l.Accepts r ∧ cleans d k r = true)) ∨
      ∃ atMs, r = .cleanupAttempt k d atMs ∧ l.Accepts r := by
  rcases l.apply_cases r with ⟨refused, same⟩ | applied
  · rw [same] at h
    exact .inl ⟨h, fun c => refused c.1⟩
  generalize (l.apply r).2 = l' at h applied
  have accepted : l.Accepts r := accepts_iff.mpr ⟨_, applied⟩
  cases applied with
  | @intent k' app d' disposition atMs fresh free =>
    refine .inl ⟨?_, fun c => absurd c.2 Bool.false_ne_true⟩
    cases before : l.find d k with
    | some e => rwa [outstanding, find_push_of_some before, ← before] at h
    | none =>
      rw [outstanding, find_push_of_none before] at h
      split at h <;> cases h
  | receipt found noId state =>
    refine .inl ⟨?_, fun c => absurd c.2 Bool.false_ne_true⟩
    rwa [outstanding_modifyEntry (fun _ => by rfl) found fun _ => rfl] at h
  | receiptAgain found same => exact .inl ⟨h, fun c => absurd c.2 Bool.false_ne_true⟩
  | @attempt k' d' atMs e found unsettled =>
    by_cases same : (d, k) = (d', k')
    · cases same; exact .inr ⟨atMs, rfl, accepted⟩
    · refine .inl ⟨?_, fun c => ?_⟩
      · rwa [outstanding_modifyEntry (fun _ => by rfl) found fun here => absurd here same] at h
      · obtain ⟨hd, hk⟩ := Bool.and_eq_true_iff.mp c.2
        exact same (Prod.ext (of_decide_eq_true hd).symm (of_decide_eq_true hk).symm)
  | @result k' d' outcome atMs e found out conflict =>
    by_cases same : (d, k) = (d', k')
    · cases same
      rw [outstanding, find_modifyEntry_self (fun _ => by rfl) found] at h
      cases h
    · refine .inl ⟨?_, fun c => ?_⟩
      · rwa [outstanding_modifyEntry (fun _ => by rfl) found fun here => absurd here same] at h
      · obtain ⟨hd, hk⟩ := Bool.and_eq_true_iff.mp c.2
        exact same (Prod.ext (of_decide_eq_true hd).symm (of_decide_eq_true hk).symm)

/-- Run lemma: an attempt that is outstanding was outstanding all along, or it was made in the
sequence and no cleanup record of the entry was accepted since. -/
theorem outstanding_absorb {rs : List LedgerRecord} (h : (l.absorb rs).outstanding d k = true) :
    (l.outstanding d k = true ∧ Quiet d k l rs) ∨
      ∃ before atMs since, rs = before ++ .cleanupAttempt k d atMs :: since ∧
        (l.absorb before).Accepts (.cleanupAttempt k d atMs) ∧
        Quiet d k (l.absorb (before ++ [.cleanupAttempt k d atMs])) since := by
  induction rs generalizing l with
  | nil => exact .inl ⟨h, trivial⟩
  | cons r rs ih =>
    rcases ih h with ⟨out, quiet⟩ | ⟨before, atMs, since, rfl, accepted, quiet⟩
    · rcases outstanding_apply out with ⟨out, other⟩ | ⟨atMs, rfl, accepted⟩
      · exact .inl ⟨out, other, quiet⟩
      · exact .inr ⟨[], atMs, rs, rfl, accepted, quiet⟩
    · exact .inr ⟨r :: before, atMs, since, rfl, accepted, quiet⟩

/-- A result is accepted only while an attempt is outstanding, and leaves none. -/
theorem accepts_result {outcome : CleanupOutcome} {atMs : Nat}
    (h : l.Accepts (.cleanupResult k d outcome atMs)) :
    l.outstanding d k = true ∧ (l.apply (.cleanupResult k d outcome atMs)).2.outstanding d k = false := by
  obtain ⟨l', applied⟩ := accepts_iff.mp h
  rw [applied.eq]
  cases applied with
  | result found out conflict =>
    refine ⟨by rw [outstanding, found, Option.any_some, out], ?_⟩
    rw [outstanding, find_modifyEntry_self (fun _ => by rfl) found]
    rfl

/-- **The ledger is safe**, whatever records it was built from. A port is the name of its lease's
key. An entry is found by its deployment and key; no port has two leases that are not released; a
released or refused entry stays as it is; an id stays once it is set; an accepted result belongs to
one attempt of the same entry, the last one, which no result has used, and uses it up; and a refused
record changes nothing. -/
theorem after_safe (records : List LedgerRecord) :
    let l := after records
    Keyed.Unique Entry.ref l.entries ∧
    (∀ e ∈ l.entries, ∀ e' ∈ l.entries, e.key.kind = .portLease → e'.key = e.key →
      e.isReleased = false → e'.isReleased = false → e' = e) ∧
    (∀ more, ∀ e ∈ l.entries, e.isReleased = true ∨ e.isRefused = true →
      e ∈ (after (records ++ more)).entries) ∧
    (∀ more, ∀ e ∈ l.entries, ∀ id, e.id = some id →
      ∃ e' ∈ (after (records ++ more)).entries, e'.ref = e.ref ∧ e'.id = some id) ∧
    (∀ k d outcome atMs, l.Accepts (.cleanupResult k d outcome atMs) →
      (∃ before atMs' since, records = before ++ .cleanupAttempt k d atMs' :: since ∧
        (after before).Accepts (.cleanupAttempt k d atMs') ∧
        Quiet d k (after (before ++ [.cleanupAttempt k d atMs'])) since) ∧
      (l.apply (.cleanupResult k d outcome atMs)).2.outstanding d k = false) ∧
    (∀ r, ¬ l.Accepts r → (l.apply r).2 = l) := by
  intro l
  have sound : l.Sound := sound_after records
  refine ⟨sound.unique, sound.lease, ?_, ?_, ?_, fun r => apply_refused⟩
  · intro more e mem settled
    obtain ⟨e', mem', later⟩ := sound.absorb_later more mem
    have same : e' = e := later.settled (by rw [Entry.isSettled]; exact Bool.or_eq_true _ _ ▸ settled)
    rw [after, absorb_append]
    exact same ▸ mem'
  · intro more e mem id hid
    obtain ⟨e', mem', later⟩ := sound.absorb_later more mem
    rw [after, absorb_append]
    exact ⟨e', mem', later.ref, later.id id hid⟩
  · intro k d outcome atMs accepted
    obtain ⟨out, used⟩ := accepts_result accepted
    refine ⟨?_, used⟩
    rcases outstanding_absorb out with ⟨none, _⟩ | made
    · cases none
    · exact made

end Ledger

end Harpoon.Deploy
