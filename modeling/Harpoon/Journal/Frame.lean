import Harpoon.Deploy.Ids
import Harpoon.Wire.Number

/-!
# Lines of a journal

Every line is the checksum of its body in eight hexadecimal digits, a tab, and the body, which is a
list of fields with tabs between them (`journal_format.rs`; the checksum is `ledger.rs`'s).
-/

namespace Harpoon.Journal

open Wire

/-! ## The checksum -/

def crcRound (crc : UInt32) : UInt32 :=
  if crc &&& 1 ≠ 0 then (crc >>> 1) ^^^ 0xEDB88320 else crc >>> 1

def crcByte (crc : UInt32) (b : UInt8) : UInt32 := Nat.repeat crcRound 8 (crc ^^^ b.toUInt32)

def crc32 (data : Bytes) : UInt32 := ~~~(data.foldl crcByte 0xFFFFFFFF)

/-! ## Frames -/

/-- The line of a body, without its newline. -/
def frame (body : String) : String := hexPadded 8 (crc32 (utf8 body)).toNat ++ (String.singleton '\t' ++ body)

/-- The checksum that stands in front is that of the body. -/
def checked (crc body : String) : Except String Unit := do
  match parseUnsigned 16 0xFFFFFFFF crc with
  | none => throw "bad checksum field"
  | some want =>
    if crc.utf8ByteSize ≠ 8 ∨ (crc32 (utf8 body)).toNat ≠ want then throw "checksum mismatch"

/-- The checksum and the body of a line. -/
def unframe (line : String) : Except String (String × String) :=
  match splitOnce '\t' line with
  | some parts => .ok parts
  | none => .error "no checksum"

section

variable {body : String}

theorem hexDigit_ascii : ∀ d : Fin 16, d.val.digitChar.utf8Size = 1 := by decide

theorem unframe_frame :
    unframe (frame body) = .ok (hexPadded 8 (crc32 (utf8 body)).toNat, body) := by
  have free : Free '\t' (hexPadded 8 (crc32 (utf8 body)).toNat) := hexPadded_free (by decide)
  rw [unframe, frame, splitOnce_append free]

theorem checked_frame : checked (hexPadded 8 (crc32 (utf8 body)).toNat) body = .ok () := by
  have bound : (crc32 (utf8 body)).toNat < 16 ^ 8 := (crc32 (utf8 body)).toNat_lt
  have size : (hexPadded 8 (crc32 (utf8 body)).toNat).utf8ByteSize = 8 := by
    have ascii : ∀ c ∈ (hexPadded 8 (crc32 (utf8 body)).toNat).toList, c.utf8Size = 1 := by
      intro c mem
      obtain ⟨d, small, rfl⟩ := hexDigit_of_mem mem
      exact hexDigit_ascii ⟨d, small⟩
    have ascii := utf8ByteSize_ofList ascii
    rwa [String.ofList_toList, length_hexPadded (by decide) bound] at ascii
  rw [checked, parseUnsigned_hexPadded (Nat.le_of_lt_succ bound)]
  dsimp only
  rw [if_neg fun other => other.elim (fun short => short size) fun differs => differs rfl]
  rfl

end

/-! ## Fields -/

/-- A text that may stand in a field of a line. -/
structure Plain (s : String) : Prop where
  tab : Free '\t' s
  newline : Free '\n' s

instance (s : String) : Decidable (Plain s) :=
  decidable_of_iff (Free '\t' s ∧ Free '\n' s) ⟨fun h => ⟨h.1, h.2⟩, fun h => ⟨h.tab, h.newline⟩⟩

section

variable {s : String} {fs : List String} {kind : Deploy.IdKind}

theorem Plain.asStr {i : Deploy.Id kind} : Plain i.asStr :=
  ⟨Deploy.Id.asStr_free (by decide), Deploy.Id.asStr_free (by decide)⟩

theorem Plain.repr {n : Nat} : Plain n.repr := ⟨repr_free (by decide), repr_free (by decide)⟩

theorem Plain.hexText : Plain (hexText s) := ⟨hexText_free (by decide) s, hexText_free (by decide) s⟩

theorem Plain.joined {sep : Char} (other : sep ≠ '\t' ∧ sep ≠ '\n') (plain : ∀ f ∈ fs, Plain f) :
    Plain (joined sep fs) where
  tab mem := (mem_joined mem).elim (fun same => other.1 same.symm) fun ⟨f, inside, mem⟩ => (plain f inside).tab mem
  newline mem :=
    (mem_joined mem).elim (fun same => other.2 same.symm) fun ⟨f, inside, mem⟩ => (plain f inside).newline mem

/-- The line of plain fields holds no newline. -/
theorem frame_newline (plain : ∀ f ∈ fs, Plain f) : Free '\n' (frame (Wire.joined '\t' fs)) := by
  intro mem
  rw [frame, String.toList_append, String.toList_append] at mem
  rcases List.mem_append.mp mem with mem | mem
  · exact hexPadded_free (by decide) mem
  · rcases List.mem_append.mp mem with mem | mem
    · exact absurd mem (by decide)
    · rcases mem_joined mem with same | ⟨f, inside, mem⟩
      · exact absurd same (by decide)
      · exact (plain f inside).newline mem

theorem fields_plain (plain : ∀ f ∈ fs, Plain f) (some : fs ≠ []) : fields '\t' (Wire.joined '\t' fs) = fs :=
  fields_joined (fun f mem => (plain f mem).tab) some

end

/-- The largest number the fields hold. -/
def maxNumber : Nat := 0xFFFFFFFFFFFFFFFF

/-- Read what must be there. -/
def need {α : Type} (why : String) : Option α → Except String α
  | some a => .ok a
  | none => .error why

def number (why : String) (s : String) : Except String Nat := need why (parseUnsigned 10 maxNumber s)

def readId (kind : Deploy.IdKind) (why : String) (s : String) : Except String (Deploy.Id kind) :=
  need why (Deploy.Id.parse kind s).toOption

section

variable {α : Type} {why : String} {kind : Deploy.IdKind}

theorem mapError_ok {ε δ α : Type} {f : ε → δ} {a : α} : (Except.ok a).mapError f = .ok a := rfl

theorem mapError_error {ε δ α : Type} {f : ε → δ} {e : ε} :
    (Except.error e : Except ε α).mapError f = .error (f e) := rfl

@[simp] theorem need_some {a : α} : need why (some a) = .ok a := rfl

@[simp] theorem number_repr {n : Nat} (fits : n ≤ maxNumber) : number why n.repr = .ok n := by
  rw [number, parseUnsigned_repr fits, need_some]

@[simp] theorem readId_asStr {i : Deploy.Id kind} : readId kind why i.asStr = .ok i := by
  rw [readId, Deploy.Id.parse_asStr]
  rfl

section

variable {ε β : Type} {x : Except ε α} {f : α → Except ε β} {g : α → β} {a : α} {b : β}

/-- What a computation that answers went through. -/
theorem bind_ok (answers : x >>= f = .ok b) : ∃ a, x = .ok a ∧ f a = .ok b := by
  cases x with
  | error e => cases answers
  | ok a => exact ⟨a, rfl, answers⟩

theorem ok_of_toOption {ε α : Type} {e : Except ε α} {a : α} (some : e.toOption = some a) : e = .ok a := by
  cases e with
  | error _ => cases some
  | ok _ => exact congrArg Except.ok (Option.some.inj some)

theorem map_ok (answers : g <$> x = .ok b) : ∃ a, x = .ok a ∧ g a = b := by
  cases x with
  | error e => cases answers
  | ok a => exact ⟨a, rfl, Except.ok.inj answers⟩

theorem need_ok {o : Option α} (answers : need why o = .ok a) : o = some a := by
  cases o with
  | none => cases answers
  | some c => exact congrArg some (Except.ok.inj answers)

/-- An element that was read from a list was read from one of its entries. -/
theorem mem_of_mapM {l : List α} {bs : List β} (answers : l.mapM f = .ok bs) : ∀ b ∈ bs, ∃ a ∈ l, f a = .ok b := by
  induction l generalizing bs with
  | nil =>
    cases answers
    intro b mem
    cases mem
  | cons a l ih =>
    rw [List.mapM_cons] at answers
    obtain ⟨b, first, answers⟩ := bind_ok answers
    obtain ⟨rest, others, answers⟩ := bind_ok answers
    cases answers
    intro c mem
    rcases List.mem_cons.mp mem with rfl | mem
    · exact ⟨a, List.mem_cons_self, first⟩
    · obtain ⟨d, inside, read⟩ := ih others c mem
      exact ⟨d, List.mem_cons_of_mem a inside, read⟩

end

/-- A list is read entry by entry. -/
theorem mapM_map {β γ ε : Type} {read : β → Except ε γ} {text : α → β} {g : α → γ} {l : List α}
    (back : ∀ a ∈ l, read (text a) = .ok (g a)) : (l.map text).mapM read = .ok (l.map g) := by
  induction l with
  | nil => rfl
  | cons a l ih =>
    rw [List.map_cons, List.mapM_cons, back a List.mem_cons_self, ih fun b mem => back b (List.mem_cons_of_mem a mem)]
    rfl

/-- A list is read back entry by entry. -/
theorem mapM_map_ok {β ε : Type} {read : β → Except ε α} {text : α → β} {l : List α}
    (back : ∀ a ∈ l, read (text a) = .ok a) : (l.map text).mapM read = .ok l :=
  (mapM_map (g := id) back).trans (congrArg Except.ok (List.map_id l))

theorem forM_ok {β ε : Type} {check : β → Except ε Unit} {l : List β} (all : ∀ b ∈ l, check b = .ok ()) :
    l.forM check = .ok () := by
  induction l with
  | nil => rfl
  | cons b l ih =>
    rw [List.forM, all b List.mem_cons_self]
    exact ih fun c mem => all c (List.mem_cons_of_mem b mem)

end

end Harpoon.Journal
