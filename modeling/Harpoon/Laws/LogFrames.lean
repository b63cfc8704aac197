import Harpoon.Docker.Output

/-!
# Cutting a log stream

Every prefix of a stream of frames gives the bytes of the payloads that are in it, and is reported as truncated unless it ends with
a frame. What is too short for the first header cannot be told from the output of a TTY.
-/

namespace Harpoon.Docker

open Wire (Bytes lossy byte_of_lt)

structure LogFrame where
  stream : Fin 3
  payload : Bytes
  fits : payload.length < 4294967296

def LogFrame.header (f : LogFrame) : Bytes :=
  let n := f.payload.length
  [UInt8.ofNat f.stream, 0, 0, 0, UInt8.ofNat (n / 16777216), UInt8.ofNat (n / 65536 % 256), UInt8.ofNat (n / 256 % 256),
    UInt8.ofNat (n % 256)]

/-- Each byte of the frame, with whether it is of the payload. -/
def LogFrame.marked (f : LogFrame) : List (UInt8 × Bool) := f.header.map (·, false) ++ f.payload.map (·, true)

/-- The bytes of the stream, with whether they are of a payload. -/
def stream (frames : List LogFrame) : List (UInt8 × Bool) := frames.flatMap (·.marked)

def cutBytes (part : List (UInt8 × Bool)) : Bytes := part.map (·.1)

/-- The first `n` bytes. -/
def cutAt (frames : List LogFrame) (n : Nat) : List (UInt8 × Bool) := (stream frames).take n

def payloadOf (part : List (UInt8 × Bool)) : Bytes := (part.filter (·.2)).map (·.1)

/-- The part ends where a frame ends. -/
def AtBoundary (frames : List LogFrame) (part : List (UInt8 × Bool)) : Prop := ∃ front, front <+: frames ∧ part = stream front

section

variable {f : LogFrame} {fs : List LogFrame} {part : List (UInt8 × Bool)} {rest : Bytes} {n : Nat}

theorem frameHeader_header : frameHeader (f.header ++ rest) = some (f.payload.length, rest) := by
  have least : (UInt8.ofNat f.stream).toNat ≤ 2 := by
    have := f.stream.isLt
    rw [byte_of_lt (by omega)]
    omega
  have value : bigEndian (UInt8.ofNat (f.payload.length / 16777216)) (UInt8.ofNat (f.payload.length / 65536 % 256))
      (UInt8.ofNat (f.payload.length / 256 % 256)) (UInt8.ofNat (f.payload.length % 256)) = f.payload.length := by
    have := f.fits
    rw [bigEndian, byte_of_lt (by omega), byte_of_lt (by omega), byte_of_lt (by omega), byte_of_lt (by omega)]
    omega
  show (if _ then _ else _) = _
  rw [if_pos ⟨least, rfl, rfl, rfl⟩, value]
  rfl

theorem frameHeader_short (short : rest.length < 8) : frameHeader rest = none := by
  match rest, short with
  | [], _ | [_], _ | [_, _], _ | [_, _, _], _ | [_, _, _, _], _ | [_, _, _, _, _], _ | [_, _, _, _, _, _], _
  | [_, _, _, _, _, _, _], _ => rfl

theorem length_header : f.header.length = 8 := rfl

theorem bytesOf_header : cutBytes (f.header.map (·, false) ++ part) = f.header ++ cutBytes part := by
  rw [cutBytes, List.map_append, List.map_map]
  exact congrArg (· ++ _) (List.map_id _)

theorem bytesOf_payload : cutBytes (f.payload.map (·, true) ++ part) = f.payload ++ cutBytes part := by
  rw [cutBytes, List.map_append, List.map_map]
  exact congrArg (· ++ _) (List.map_id _)

theorem payloadOf_append {a b : List (UInt8 × Bool)} : payloadOf (a ++ b) = payloadOf a ++ payloadOf b := by
  rw [payloadOf, List.filter_append, List.map_append, payloadOf, payloadOf]

theorem payloadOf_header (bs : Bytes) : payloadOf (bs.map (·, false)) = [] := by
  induction bs with
  | nil => rfl
  | cons b bs ih => exact ih

theorem payloadOf_payload (bs : Bytes) : payloadOf (bs.map (·, true)) = bs := by
  induction bs with
  | nil => rfl
  | cons b bs ih => exact congrArg (b :: ·) ih

theorem stream_cons : stream (f :: fs) = f.header.map (·, false) ++ (f.payload.map (·, true) ++ stream fs) := by
  rw [stream, List.flatMap_cons, LogFrame.marked, List.append_assoc]
  rfl

theorem length_stream (front : List LogFrame) : front = [] ∨ 8 ≤ (stream front).length := by
  cases front with
  | nil => exact .inl rfl
  | cons f fs =>
    refine .inr ?_
    rw [stream, List.flatMap_cons, LogFrame.marked, List.length_append, List.length_append, List.length_map, length_header]
    omega

theorem atBoundary_cons : AtBoundary (f :: fs) part ↔ part = [] ∨ ∃ more, part = f.marked ++ more ∧ AtBoundary fs more := by
  constructor
  · rintro ⟨front, before, rfl⟩
    cases front with
    | nil => exact .inl rfl
    | cons g gs =>
      obtain ⟨rfl, inside⟩ := List.cons_prefix_cons.mp before
      exact .inr ⟨stream gs, rfl, gs, inside, rfl⟩
  · rintro (rfl | ⟨_, rfl, front, before, rfl⟩)
    · exact ⟨[], List.nil_prefix, rfl⟩
    · exact ⟨f :: front, List.cons_prefix_cons.mpr ⟨rfl, before⟩, rfl⟩

theorem demuxFrames_nil : demuxFrames n [] = ([], false) := by
  cases n <;> rfl

theorem demuxFrames_header (enough : 0 < n) : demuxFrames n (f.header ++ rest) =
    (rest.take f.payload.length ++ (demuxFrames (n - 1) (rest.drop f.payload.length)).1,
      rest.length < f.payload.length || (demuxFrames (n - 1) (rest.drop f.payload.length)).2) := by
  obtain ⟨n, rfl⟩ : ∃ m, n = m + 1 := ⟨n - 1, by omega⟩
  have some_ : f.header ++ rest ≠ [] := List.cons_ne_nil _ _
  rw [demuxFrames, if_neg some_, frameHeader_header]
  rfl

/-- A prefix ends in the first list, or goes beyond it. -/
theorem prefix_ends {α : Type} {l a b : List α} (before : l <+: a ++ b) :
    l <+: a ∧ l.length < a.length ∨ ∃ more, l = a ++ more ∧ more <+: b := by
  by_cases short : l.length < a.length
  · exact .inl ⟨List.prefix_of_prefix_length_le before (List.prefix_append a b) (Nat.le_of_lt short), short⟩
  · obtain ⟨more, rfl⟩ := List.prefix_of_prefix_length_le (List.prefix_append a b) before (Nat.le_of_not_lt short)
    exact .inr ⟨more, rfl, (List.prefix_append_right_inj a).mp before⟩

theorem prefix_map {α β : Type} {g : α → β} {l : List β} {a : List α} (before : l <+: a.map g) : ∃ front : List α, l = front.map g := by
  refine ⟨a.take l.length, ?_⟩
  rw [List.map_take]
  exact List.prefix_iff_eq_take.mp before

/-- A part that begins with a frame. -/
theorem demuxFrames_part (frames : List LogFrame) (enough : part.length ≤ n) (before : part <+: stream frames) :
    (demuxFrames n (cutBytes part)).1 = payloadOf part ∧
      ((demuxFrames n (cutBytes part)).2 = true ↔ ¬ AtBoundary frames part) := by
  have nothing (frames : List LogFrame) (n : Nat) : (demuxFrames n (cutBytes [])).1 = payloadOf [] ∧
      ((demuxFrames n (cutBytes [])).2 = true ↔ ¬ AtBoundary frames []) := by
    rw [show cutBytes [] = [] from rfl, demuxFrames_nil]
    exact ⟨rfl, fun h => (by cases h), fun h => absurd ⟨[], List.nil_prefix, rfl⟩ h⟩
  induction frames generalizing part n with
  | nil =>
    obtain rfl := List.prefix_nil.mp before
    exact nothing [] n
  | cons f fs ih =>
    rw [stream_cons] at before
    rcases prefix_ends before with ⟨inside, short⟩ | ⟨more, rfl, before'⟩
    · -- The part ends in the header.
      rw [List.length_map, length_header] at short
      cases part with
      | nil => exact nothing (f :: fs) n
      | cons p ps =>
        obtain ⟨n, rfl⟩ : ∃ m, n = m + 1 := ⟨n - 1, by rw [List.length_cons] at enough; omega⟩
        have headless : frameHeader (cutBytes (p :: ps)) = none := frameHeader_short (by rw [cutBytes, List.length_map]; exact short)
        have stops : demuxFrames (n + 1) (cutBytes (p :: ps)) = ([], true) := by
          have some_ : cutBytes (p :: ps) ≠ [] := List.cons_ne_nil _ _
          rw [demuxFrames, if_neg some_, headless]
        obtain ⟨front, same⟩ := prefix_map inside
        refine ⟨by rw [stops, same, payloadOf_header], fun _ boundary => ?_, fun _ => by rw [stops]⟩
        rcases atBoundary_cons.mp boundary with nothing | ⟨more, whole, _⟩
        · cases nothing
        · rw [whole, LogFrame.marked, List.length_append, List.length_append, List.length_map, length_header] at short
          omega
    · have enough' : 0 < n ∧ more.length ≤ n - 1 := by
        rw [List.length_append, List.length_map, length_header] at enough
        omega
      rw [bytesOf_header, demuxFrames_header enough'.1, payloadOf_append, payloadOf_header, List.nil_append]
      rcases prefix_ends before' with ⟨inside, short⟩ | ⟨next, rfl, before''⟩
      · -- It ends in the payload.
        rw [List.length_map] at short
        have short' : (cutBytes more).length < f.payload.length := by rw [cutBytes, List.length_map]; exact short
        obtain ⟨front, rfl⟩ := prefix_map inside
        have same : cutBytes (front.map (·, true)) = front := by
          rw [cutBytes, List.map_map]
          exact List.map_id _
        rw [same] at short'
        rw [same, List.take_of_length_le (Nat.le_of_lt short'), List.drop_of_length_le (Nat.le_of_lt short'), demuxFrames_nil,
          decide_eq_true short', payloadOf_payload]
        refine ⟨List.append_nil _, fun _ boundary => ?_, fun _ => rfl⟩
        rcases atBoundary_cons.mp boundary with nothing | ⟨more, whole, _⟩
        · cases nothing
        · have length := congrArg List.length whole
          rw [LogFrame.marked, List.length_append, List.length_append, List.length_append, List.length_map, List.length_map,
            List.length_map] at length
          omega
      · -- It goes on behind the frame.
        have room : next.length ≤ n - 1 := by
          have := enough'.2
          rw [List.length_append] at this
          omega
        obtain ⟨out, cut⟩ := ih room before''
        rw [bytesOf_payload, List.take_left, List.drop_left, out, payloadOf_append, payloadOf_payload]
        have fits : ¬ (f.payload ++ cutBytes next).length < f.payload.length := by
          rw [List.length_append]
          omega
        refine ⟨rfl, ?_⟩
        rw [decide_eq_false fits, Bool.false_or, cut, atBoundary_cons]
        refine not_congr ⟨fun boundary => .inr ⟨next, ?_, boundary⟩, ?_⟩
        · rw [LogFrame.marked, List.append_assoc]
        · rintro (nothing | ⟨more, same, boundary⟩)
          · cases nothing
          · rw [LogFrame.marked, List.append_assoc] at same
            obtain rfl := List.append_cancel_left (List.append_cancel_left same)
            exact boundary

/-- Of any part of a stream, the bytes of its payloads, and truncated unless it ends with a frame; but what is too short for the
first header is the output of a TTY. -/
theorem demux_cut (frames : List LogFrame) (n : Nat) :
    if (cutAt frames n).length = 0 ∨ 8 ≤ (cutAt frames n).length then
      (demux (cutBytes (cutAt frames n))).text = String.ofList (lossy (payloadOf (cutAt frames n))) ∧
        ((demux (cutBytes (cutAt frames n))).truncated = true ↔ ¬ AtBoundary frames (cutAt frames n))
    else
      demux (cutBytes (cutAt frames n)) = { text := String.ofList (lossy (cutBytes (cutAt frames n))), truncated := false } := by
  have before : cutAt frames n <+: stream frames := List.take_prefix ..
  generalize cutAt frames n = part at before
  have length : (cutBytes part).length = part.length := List.length_map ..
  split
  next outside =>
    cases part with
    | nil => exact ⟨rfl, fun h => (by cases h), fun h => absurd ⟨[], List.nil_prefix, rfl⟩ h⟩
    | cons p ps =>
      have long : 8 ≤ (p :: ps).length := outside.resolve_left (by simp)
      obtain ⟨out, cut⟩ := demuxFrames_part frames (Nat.le_refl _) before
      cases frames with
      | nil => cases List.prefix_nil.mp before
      | cons f fs =>
        rw [stream_cons] at before
        have framed : (frameHeader (cutBytes (p :: ps))).isSome = true := by
          rcases prefix_ends before with ⟨_, short⟩ | ⟨more, same, _⟩
          · rw [List.length_map, length_header] at short
            omega
          · rw [same, bytesOf_header, frameHeader_header]
            rfl
        rw [demux, if_pos framed, length]
        exact ⟨congrArg (fun out => String.ofList (lossy out)) out, cut⟩
  next inside =>
    have short : (cutBytes part).length < 8 := by omega
    rw [demux, frameHeader_short short]
    rfl

/-- A part of the first header is not told from the output of a TTY. -/
theorem header_cut_taken : ¬ ∀ (frames : List LogFrame) (n : Nat),
    (demux (cutBytes (cutAt frames n))).text = String.ofList (lossy (payloadOf (cutAt frames n))) ∧
      ((demux (cutBytes (cutAt frames n))).truncated = true ↔ ¬ AtBoundary frames (cutAt frames n)) := by
  intro each
  have cut := (each [⟨1, [97], by decide⟩] 1).2.mpr fun ⟨front, _, same⟩ => by
    rcases length_stream front with rfl | long
    · cases same
    · rw [← same] at long
      exact absurd long (by decide)
  cases cut

end

end Harpoon.Docker
