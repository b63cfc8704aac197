import Harpoon.Interact.Program
import Harpoon.Wire.Segments

/-!
# Readers with a buffer

A program that reads from a connection asks for a line, for so many bytes, or for all that comes. What it is given is taken from a
buffer, and the buffer is filled by reads, each of which brings a part of the stream. The limit of a line is tested on what the
buffer holds, so that a line beyond its limit is refused or taken by how the stream was cut: `onStream slack` is the run in which a
read brings at most `slack` bytes to a line.

Every run is the one with the greatest reads, or is refused for a line; both that run and the one byte by byte do occur. So the
runs agree exactly where these two do: where no line ends between the two limits, or such a line is refused in the end.
-/

namespace Harpoon.Interact

open Wire (Bytes positionOf Segmented singly)

/-- What a program asks of its reader. An operation that needs more than the stream has fails with an error, given the error of the
stream, if it did not just end, and what was there. -/
inductive ReaderOp (ε : Type) where
  | line (max : Nat) (early : Option ε → Bytes → ε)
  | exact (n : Nat) (early : Option ε → Bytes → ε)
  | toEnd (max : Nat) (tooLarge : ε)
  /-- A sum, which is to be less than the bound. -/
  | sum (a b bound : Nat)
  | fail (e : ε)

/-- An error of the program or of its reader, or a sum that is too great. -/
inductive Fault (ε : Type) where
  | error (e : ε)
  | overflow
  deriving DecidableEq, Repr

@[reducible] def ReaderOp.Answer {ε : Type} : ReaderOp ε → Type
  | .line _ _ | .exact _ _ | .toEnd _ _ => Bytes
  | .sum _ _ _ => Nat
  | .fail _ => Empty

abbrev ReaderSig (ε : Type) : Signature := ⟨ReaderOp ε, ReaderOp.Answer⟩

namespace Reader

def crlf : Bytes := [0x0D, 0x0A]

section

variable {ε α : Type}

/-! ## Reading from a buffer -/

/-- Take bytes as soon as what is there decides how many, or else what is taken at the end. Each read brings at least one byte. -/
def pull (look : Bytes → Option (Except (Fault ε) (Bytes × Nat))) (ended : Bytes → Except (Fault ε) (Bytes × Nat)) (avail : Bytes) :
    List Bytes → Except (Fault ε) (Bytes × Bytes × List Bytes)
  | [] =>
    match (look avail).getD (ended avail) with
    | .ok (a, n) => .ok (a, avail.drop n, [])
    | .error e => .error e
  | read :: reads =>
    match look avail with
    | some (.ok (a, n)) => .ok (a, avail.drop n, read :: reads)
    | some (.error e) => .error e
    | none => pull look ended (avail ++ read) reads

variable (tooLong : ε) (ending : Option ε)

def lookLine (max : Nat) (avail : Bytes) : Option (Except (Fault ε) (Bytes × Nat)) :=
  match positionOf crlf avail with
  | some i => some (.ok (avail.take i, i + 2))
  | none => if max < avail.length then some (.error (.error tooLong)) else none

def lookExact (n : Nat) (avail : Bytes) : Option (Except (Fault ε) (Bytes × Nat)) :=
  if n ≤ avail.length then some (.ok (avail.take n, n)) else none

def lookEnd (max : Nat) (tooLarge : ε) (avail : Bytes) : Option (Except (Fault ε) (Bytes × Nat)) :=
  if max < avail.length then some (.error (.error tooLarge)) else none

def endedEnd (avail : Bytes) : Except (Fault ε) (Bytes × Nat) :=
  match ending with
  | none => .ok (avail, avail.length)
  | some e => .error (.error e)

/-- One operation on a buffer and the reads to come. -/
def serve (op : ReaderOp ε) (avail : Bytes) (reads : List Bytes) : Except (Fault ε) (op.Answer × Bytes × List Bytes) :=
  match op with
  | .line max early => pull (lookLine tooLong max) (fun there => .error (.error (early ending there))) avail reads
  | .exact n early => pull (lookExact n) (fun there => .error (.error (early ending there))) avail reads
  | .toEnd max tooLarge => pull (lookEnd max tooLarge) (endedEnd ending) avail reads
  | .sum a b bound => if a + b < bound then .ok (a + b, avail, reads) else .error .overflow
  | .fail e => .error (.error e)

/-- A program from a buffer and the reads to come. -/
def run : Program (ReaderSig ε) α → Bytes → List Bytes → Except (Fault ε) α
  | .done a, _, _ => .ok a
  | .ask op next, avail, reads =>
    match serve tooLong ending op avail reads with
    | .ok (a, avail, reads) => run (next a) avail reads
    | .error e => .error e

/-! ## Reading from a stream -/

/-- A line of the whole of what is to come, which may be beyond its limit by what a read brings at most. -/
def streamLine (slack max : Nat) (early : Option ε → Bytes → ε) (stream : Bytes) : Except (Fault ε) (Bytes × Bytes) :=
  match positionOf crlf stream with
  | some i => if i + 2 ≤ max + slack then .ok (stream.take i, stream.drop (i + 2)) else .error (.error tooLong)
  | none => .error (.error (if max < stream.length then tooLong else early ending stream))

def streamExact (n : Nat) (early : Option ε → Bytes → ε) (stream : Bytes) : Except (Fault ε) (Bytes × Bytes) :=
  if n ≤ stream.length then .ok (stream.take n, stream.drop n) else .error (.error (early ending stream))

def streamEnd (max : Nat) (tooLarge : ε) (stream : Bytes) : Except (Fault ε) (Bytes × Bytes) :=
  if max < stream.length then .error (.error tooLarge) else (endedEnd ending stream).map fun taken => (taken.1, [])

def serveStream (slack : Nat) (op : ReaderOp ε) (stream : Bytes) : Except (Fault ε) (op.Answer × Bytes) :=
  match op with
  | .line max early => streamLine tooLong ending slack max early stream
  | .exact n early => streamExact ending n early stream
  | .toEnd max tooLarge => streamEnd ending max tooLarge stream
  | .sum a b bound => if a + b < bound then .ok (a + b, stream) else .error .overflow
  | .fail e => .error (.error e)

def onStream (slack : Nat) : Program (ReaderSig ε) α → Bytes → Except (Fault ε) α
  | .done a, _ => .ok a
  | .ask op next, stream =>
    match serveStream tooLong ending slack op stream with
    | .ok (a, rest) => onStream slack (next a) rest
    | .error e => .error e

/-- The operations that are asked for, each with what is to come then. -/
def asked (slack : Nat) : Program (ReaderSig ε) α → Bytes → List (ReaderOp ε × Bytes)
  | .done _, _ => []
  | .ask op next, stream =>
    (op, stream) ::
      match serveStream tooLong ending slack op stream with
      | .ok (a, rest) => asked slack (next a) rest
      | .error _ => []

/-- A line that ends beyond its limit, and before what a read can bring. -/
def Loose (slack : Nat) (op : ReaderOp ε) (stream : Bytes) : Prop :=
  ∃ max early i, op = .line max early ∧ positionOf crlf stream = some i ∧ max < i + 1 ∧ i + 2 ≤ max + slack

end

/-! ## One operation -/

section

variable {ε α A : Type} {tooLong : ε} {e : Fault ε} {ending : Option ε} {look : Bytes → Option (Except (Fault ε) (Bytes × Nat))}
  {ended : Bytes → Except (Fault ε) (Bytes × Nat)} {avail more stream a bs : Bytes} {reads : List Bytes} {n i max most slack : Nat}
  {op : ReaderOp ε}

theorem crlf_some : crlf ≠ [] := List.cons_ne_nil _ _

/-- The outcome on a buffer is the one on the stream. -/
def Agrees (most : Nat) (x : Except (Fault ε) (A × Bytes × List Bytes)) : Except (Fault ε) (A × Bytes) → Prop
  | .ok (a, rest) => ∃ avail reads more, x = .ok (a, avail, reads) ∧ avail.length ≤ most ∧ Segmented most reads more ∧
      avail ++ more = rest
  | .error e => x = .error e

theorem pull_taken (decided : look avail = some (.ok (a, n))) : pull look ended avail reads = .ok (a, avail.drop n, reads) := by
  cases reads <;> rw [pull, decided] <;> rfl

theorem pull_refused (decided : look avail = some (.error e)) : pull look ended avail reads = .error e := by
  cases reads <;> rw [pull, decided] <;> rfl

theorem pull_more {read : Bytes} (open_ : look avail = none) :
    pull look ended avail (read :: reads) = pull look ended (avail ++ read) reads := by
  rw [pull, open_]

theorem pull_ended (open_ : look avail = none) : pull look ended avail [] =
    match ended avail with
    | .ok (a, n) => .ok (a, avail.drop n, [])
    | .error e => .error e := by
  rw [pull, open_]
  rfl

/-- Where no start decides, the reads of single bytes are all taken up. -/
theorem pull_singly (open_ : ∀ front back, bs = front ++ back → back ≠ [] → look (avail ++ front) = none) :
    pull look ended avail (singly bs ++ reads) = pull look ended (avail ++ bs) reads := by
  induction bs generalizing avail with
  | nil => rw [List.append_nil]; rfl
  | cons b bs ih =>
    have here := open_ [] (b :: bs) rfl (List.cons_ne_nil _ _)
    rw [List.append_nil] at here
    have same : avail ++ b :: bs = avail ++ [b] ++ bs := by rw [List.append_assoc, List.singleton_append]
    show pull look ended avail ([b] :: (singly bs ++ reads)) = _
    rw [pull_more here, same]
    refine ih fun front back split some_ => ?_
    rw [List.append_assoc, List.singleton_append]
    exact open_ (b :: front) back (by rw [split]; rfl) some_

theorem exact_cut {early : Option ε → Bytes → ε} (cut : Segmented most reads more) (fits : avail.length ≤ most) :
    Agrees most (pull (lookExact n) (fun there => .error (.error (early ending there))) avail reads)
      (streamExact ending n early (avail ++ more)) := by
  have taken {avail more : Bytes} {reads : List Bytes} (cut : Segmented most reads more) (enough : n ≤ avail.length)
      (left : avail.length ≤ n + most) :
      Agrees most (pull (lookExact n) (fun there => .error (.error (early ending there))) avail reads)
        (streamExact ending n early (avail ++ more)) := by
    have decided : lookExact n avail = some (.ok (ε := Fault ε) (avail.take n, n)) := if_pos enough
    rw [pull_taken decided, streamExact, if_pos (by rw [List.length_append]; omega), List.take_append_of_le_length enough,
      List.drop_append_of_le_length enough]
    exact ⟨_, _, more, rfl, by rw [List.length_drop]; omega, cut, rfl⟩
  by_cases enough : n ≤ avail.length
  · exact taken cut enough (by omega)
  · clear fits
    induction reads generalizing avail more with
    | nil =>
      obtain rfl := cut.nil
      rw [pull_ended (if_neg enough), List.append_nil, streamExact, if_neg enough]
      rfl
    | cons read reads ih =>
      obtain ⟨some_, short, more, rfl, rest⟩ := cut.cons
      rw [pull_more (if_neg enough), ← List.append_assoc]
      by_cases enough' : n ≤ (avail ++ read).length
      · exact taken rest enough' (by rw [List.length_append]; omega)
      · exact ih rest enough'

theorem toEnd_cut {tooLarge : ε} (cut : Segmented most reads more) :
    Agrees most (pull (lookEnd max tooLarge) (endedEnd ending) avail reads) (streamEnd ending max tooLarge (avail ++ more)) := by
  induction reads generalizing avail more with
  | nil =>
    obtain rfl := cut.nil
    rw [List.append_nil, streamEnd]
    by_cases full : max < avail.length
    · rw [pull_refused (if_pos full), if_pos full]
      rfl
    · rw [pull_ended (if_neg full), if_neg full]
      cases ending with
      | none =>
        refine ⟨[], [], [], ?_, Nat.zero_le _, cut, rfl⟩
        show Except.ok (avail, avail.drop avail.length, []) = _
        rw [List.drop_length]
      | some e => rfl
  | cons read reads ih =>
    obtain ⟨some_, short, more, rfl, rest⟩ := cut.cons
    by_cases full : max < avail.length
    · rw [pull_refused (if_pos full), streamEnd, if_pos (by rw [List.length_append]; omega)]
      rfl
    · rw [pull_more (if_neg full), ← List.append_assoc]
      exact ih rest

theorem line_found {early : Option ε → Bytes → ε} (cut : Segmented most reads more) (found : positionOf crlf avail = some i)
    (inside : i + 2 ≤ max + most) (left : avail.length ≤ i + 2 + most) :
    Agrees most (pull (lookLine tooLong max) (fun there => .error (.error (early ending there))) avail reads)
      (streamLine tooLong ending most max early (avail ++ more)) := by
  have bound : i + 2 ≤ avail.length := Wire.positionOf_bound found
  have decided : lookLine tooLong max avail = some (.ok (avail.take i, i + 2)) := by rw [lookLine, found]
  rw [pull_taken decided, streamLine, Wire.positionOf_append found]
  dsimp only
  rw [if_pos inside, List.take_append_of_le_length (by omega), List.drop_append_of_le_length bound]
  exact ⟨_, _, more, rfl, by rw [List.length_drop]; omega, cut, rfl⟩

/-- A line that has not ended within its limit is refused byte by byte. -/
theorem streamLine_full {early : Option ε → Bytes → ε} (none_ : positionOf crlf avail = none) (full : max < avail.length) :
    streamLine tooLong ending 1 max early (avail ++ more) = .error (.error tooLong) := by
  rw [streamLine]
  cases found : positionOf crlf (avail ++ more) with
  | none =>
    dsimp only
    rw [if_pos (by rw [List.length_append]; omega)]
  | some i =>
    have outside : ¬ i + 2 ≤ avail.length := by
      intro inside
      rw [Wire.positionOf_front crlf_some found inside] at none_
      cases none_
    dsimp only
    rw [if_neg (by omega)]

/-- A line is taken as from the stream, or refused, as it is byte by byte. -/
theorem line_cut {early : Option ε → Bytes → ε} (cut : Segmented most reads more) (fits : avail.length ≤ max + most)
    (left : ∀ i, positionOf crlf avail = some i → avail.length ≤ i + 2 + most) :
    Agrees most (pull (lookLine tooLong max) (fun there => .error (.error (early ending there))) avail reads)
        (streamLine tooLong ending most max early (avail ++ more)) ∨
      pull (lookLine tooLong max) (fun there => .error (.error (early ending there))) avail reads = .error (.error tooLong) ∧
        streamLine tooLong ending 1 max early (avail ++ more) = .error (.error tooLong) := by
  induction reads generalizing avail more with
  | nil =>
    cases found : positionOf crlf avail with
    | some i => exact .inl (line_found cut found (Nat.le_trans (Wire.positionOf_bound found) fits) (left i found))
    | none =>
      by_cases full : max < avail.length
      · have decided : lookLine tooLong max avail = some (.error (.error tooLong)) := by rw [lookLine, found]; exact if_pos full
        exact .inr ⟨pull_refused decided, streamLine_full found full⟩
      · left
        have decided : lookLine tooLong max avail = none := by rw [lookLine, found]; exact if_neg full
        obtain rfl := cut.nil
        rw [pull_ended decided, List.append_nil, streamLine, found]
        dsimp only
        rw [if_neg full]
        rfl
  | cons read reads ih =>
    cases found : positionOf crlf avail with
    | some i => exact .inl (line_found cut found (Nat.le_trans (Wire.positionOf_bound found) fits) (left i found))
    | none =>
      by_cases full : max < avail.length
      · have decided : lookLine tooLong max avail = some (.error (.error tooLong)) := by rw [lookLine, found]; exact if_pos full
        exact .inr ⟨pull_refused decided, streamLine_full found full⟩
      · have decided : lookLine tooLong max avail = none := by rw [lookLine, found]; exact if_neg full
        obtain ⟨some_, short, more, rfl, rest⟩ := cut.cons
        rw [pull_more decided, ← List.append_assoc]
        refine ih rest (by rw [List.length_append]; omega) fun i found' => ?_
        have outside : ¬ i + 2 ≤ avail.length := by
          intro inside
          rw [Wire.positionOf_front crlf_some found' inside] at found
          cases found
        rw [List.length_append]
        omega

/-- What an operation gives is what it gives on the stream, or a refused line, as it is byte by byte. -/
theorem serve_cut (tooLong : ε) (ending : Option ε) (op : ReaderOp ε) (cut : Segmented most reads more)
    (fits : avail.length ≤ most) :
    Agrees most (serve tooLong ending op avail reads) (serveStream tooLong ending most op (avail ++ more)) ∨
      serve tooLong ending op avail reads = .error (.error tooLong) ∧
        serveStream tooLong ending 1 op (avail ++ more) = .error (.error tooLong) := by
  cases op with
  | line max early => exact line_cut cut (by omega) fun i _ => by omega
  | exact n early => exact .inl (exact_cut cut fits)
  | toEnd max tooLarge => exact .inl (toEnd_cut cut)
  | sum a b bound =>
    left
    show Agrees most (if _ then _ else _) (if _ then _ else _)
    split
    · exact ⟨avail, reads, more, rfl, fits, cut, rfl⟩
    · rfl
  | fail e => exact .inl rfl

/-- Byte by byte, an operation gives the same or a line is refused. -/
theorem serveStream_one (tooLong : ε) (ending : Option ε) (op : ReaderOp ε) (stream : Bytes) (least : 0 < most) :
    serveStream tooLong ending 1 op stream = serveStream tooLong ending most op stream ∨
      serveStream tooLong ending 1 op stream = .error (.error tooLong) := by
  cases op with
  | line max early =>
    show streamLine _ _ _ _ _ _ = streamLine _ _ _ _ _ _ ∨ streamLine _ _ _ _ _ _ = _
    rw [streamLine, streamLine]
    cases positionOf crlf stream with
    | none => exact .inl rfl
    | some i =>
      dsimp only
      by_cases tight : i + 2 ≤ max + 1
      · rw [if_pos tight, if_pos (by omega)]
        exact .inl rfl
      · rw [if_neg tight]
        exact .inr rfl
  | exact | toEnd | sum | fail => exact .inl rfl

/-! ## Programs -/

/-- Every run is the one in which reads bring as much as they can, or is refused for a line, as the one byte by byte. -/
theorem run_cut (least : 0 < most) (p : Program (ReaderSig ε) α) (cut : Segmented most reads more) (fits : avail.length ≤ most) :
    run tooLong ending p avail reads = onStream tooLong ending most p (avail ++ more) ∨
      run tooLong ending p avail reads = .error (.error tooLong) ∧
        onStream tooLong ending 1 p (avail ++ more) = .error (.error tooLong) := by
  induction p generalizing avail reads more with
  | done a => exact .inl rfl
  | ask op next ih =>
    rcases serve_cut tooLong ending op cut fits with agrees | ⟨refused, refused'⟩
    · rw [run, onStream]
      cases whole : serveStream tooLong ending most op (avail ++ more) with
      | error e =>
        rw [whole] at agrees
        rw [show serve tooLong ending op avail reads = .error e from agrees]
        exact .inl rfl
      | ok taken =>
        obtain ⟨a, rest⟩ := taken
        rw [whole] at agrees
        obtain ⟨avail', reads', more', served, fits', cut', rfl⟩ := agrees
        rw [served]
        rcases ih a cut' fits' with same | ⟨later, later'⟩
        · exact .inl same
        · refine .inr ⟨later, ?_⟩
          rw [onStream]
          rcases serveStream_one tooLong ending op (avail ++ more) least with same | refused
          · rw [same, whole]
            exact later'
          · rw [refused]
    · refine .inr ⟨?_, ?_⟩
      · rw [run, refused]
      · rw [onStream, refused']

theorem run_singly (p : Program (ReaderSig ε) α) (stream : Bytes) :
    run tooLong ending p [] (singly stream) = onStream tooLong ending 1 p stream := by
  have cut : Segmented 1 (singly stream) stream := Wire.singly_segmented (by decide) stream
  have runs : run tooLong ending p [] (singly stream) = onStream tooLong ending 1 p ([] ++ stream) ∨ _ :=
    run_cut (by decide) p cut (Nat.zero_le 1)
  rcases runs with same | ⟨refused, refused'⟩
  · exact same
  · rw [refused]
    exact refused'.symm

/-- What fails on the stream fails byte by byte. -/
theorem serveStream_error (least : 0 < most) (whole : serveStream tooLong ending most op stream = .error e) :
    serveStream tooLong ending 1 op stream = .error e := by
  cases op with
  | line max early =>
    have whole : streamLine tooLong ending most max early stream = .error e := whole
    show streamLine _ _ _ _ _ _ = _
    rw [streamLine] at whole ⊢
    cases found : positionOf crlf stream with
    | none => rw [found] at whole; exact whole
    | some i =>
      rw [found] at whole
      dsimp only at whole ⊢
      by_cases wide : i + 2 ≤ max + most
      · rw [if_pos wide] at whole
        cases whole
      · rw [if_neg wide] at whole
        rw [if_neg (by omega), whole]
  | exact | toEnd | sum | fail => exact whole

theorem exact_lucky (ended : Bytes → Except (Fault ε) (Bytes × Nat)) (least : 0 < most) (enough : n ≤ stream.length) :
    ∃ segments, Segmented most segments (stream.take n) ∧ ∀ reads,
      pull (lookExact n) ended [] (segments ++ reads) = .ok (stream.take n, [], reads) := by
  refine ⟨singly (stream.take n), Wire.singly_segmented least _, fun reads => ?_⟩
  have length : (stream.take n).length = n := by rw [List.length_take]; omega
  have early (front back : Bytes) (split : stream.take n = front ++ back) (some_ : back ≠ []) :
      lookExact (ε := ε) n ([] ++ front) = none := by
    have sum := congrArg List.length split
    rw [length, List.length_append] at sum
    have := List.length_pos_iff.mpr some_
    exact if_neg (show ¬ n ≤ front.length by omega)
  have decided : lookExact n (stream.take n) = some (.ok (ε := Fault ε) ((stream.take n).take n, n)) :=
    if_pos (Nat.le_of_eq length.symm)
  rw [pull_singly early, List.nil_append, pull_taken decided, List.take_take, Nat.min_self,
    List.drop_of_length_le (Nat.le_of_eq length)]

theorem line_lucky (tooLong : ε) (ended : Bytes → Except (Fault ε) (Bytes × Nat)) (found : positionOf crlf stream = some i)
    (least : 0 < most) (inside : i + 2 ≤ max + most) :
    ∃ segments, Segmented most segments (stream.take (i + 2)) ∧ ∀ reads,
      pull (lookLine tooLong max) ended [] (segments ++ reads) = .ok (stream.take i, [], reads) := by
  have bound : i + 2 ≤ stream.length := Wire.positionOf_bound found
  -- The line and its end but for the last read, and but for what is beyond the limit.
  let k := min max (i + 1)
  have first : (stream.take k).length = k := by rw [List.length_take]; omega
  have last : ((stream.take (i + 2)).drop k).length = i + 2 - k := by rw [List.length_drop, List.length_take]; omega
  have whole : stream.take k ++ (stream.take (i + 2)).drop k = stream.take (i + 2) := by
    have front : (stream.take (i + 2)).take k = stream.take k := by rw [List.take_take, Nat.min_eq_left (by omega)]
    rw [← front, List.take_append_drop]
  have early {front : Bytes} (before : front <+: stream.take k) : lookLine tooLong max front = none := by
    have short : front.length ≤ k := first ▸ before.length_le
    obtain ⟨back, split⟩ := before.trans (List.take_prefix k stream)
    have none_ : positionOf crlf front = none := Wire.positionOf_early (split.symm ▸ found) (by
      show front.length < i + 2
      omega)
    rw [lookLine, none_]
    exact if_neg (by omega)
  refine ⟨singly (stream.take k) ++ [(stream.take (i + 2)).drop k], ?_, fun reads => ?_⟩
  · have rest : Segmented most [(stream.take (i + 2)).drop k] ((stream.take (i + 2)).drop k) :=
      .one (List.ne_nil_of_length_pos (by omega)) (by omega)
    have cut := (Wire.singly_segmented least (stream.take k)).append rest
    rw [whole] at cut
    exact cut
  · have all : (stream.take (i + 2)).length = i + 2 := by rw [List.length_take]; omega
    have found' : positionOf crlf (stream.take (i + 2)) = some i := by
      have split : stream.take (i + 2) ++ stream.drop (i + 2) = stream := List.take_append_drop ..
      exact Wire.positionOf_front crlf_some (split.symm ▸ found) (Nat.le_of_eq all.symm)
    have decided : lookLine tooLong max (stream.take (i + 2)) = some (.ok ((stream.take (i + 2)).take i, i + 2)) := by
      rw [lookLine, found']
    rw [List.append_assoc, pull_singly fun front back split _ => early ⟨back, split.symm⟩, List.singleton_append, List.nil_append,
      pull_more (early List.prefix_rfl), whole, pull_taken decided, List.take_take, Nat.min_eq_left (by omega),
      List.drop_of_length_le (Nat.le_of_eq all)]

/-- There are reads with which an operation gives what it gives on the stream, and leaves nothing in the buffer. -/
theorem serve_lucky (least : 0 < most) {a : op.Answer} {rest : Bytes}
    (whole : serveStream tooLong ending most op stream = .ok (a, rest)) :
    ∃ segments front, Segmented most segments front ∧ stream = front ++ rest ∧
      ∀ reads, Segmented most reads rest → serve tooLong ending op [] (segments ++ reads) = .ok (a, [], reads) := by
  cases op with
  | line max early =>
    have whole : streamLine tooLong ending most max early stream = .ok (a, rest) := whole
    rw [streamLine] at whole
    cases found : positionOf crlf stream with
    | none => rw [found] at whole; cases whole
    | some i =>
      rw [found] at whole
      dsimp only at whole
      split at whole
      next inside =>
        cases whole
        obtain ⟨segments, cut, taken⟩ 
          := line_lucky tooLong (fun there => .error (.error (early ending there))) found least inside
        exact ⟨segments, _, cut, (List.take_append_drop ..).symm, fun reads _ => taken reads⟩
      next => cases whole
  | exact n early =>
    have whole : streamExact ending n early stream = .ok (a, rest) := whole
    rw [streamExact] at whole
    split at whole
    next enough =>
      cases whole
      obtain ⟨segments, cut, taken⟩ := exact_lucky (fun there => .error (.error (early ending there))) least enough
      exact ⟨segments, _, cut, (List.take_append_drop ..).symm, fun reads _ => taken reads⟩
    next => cases whole
  | toEnd max tooLarge =>
    have whole : streamEnd ending max tooLarge stream = .ok (a, rest) := whole
    have cut : Segmented most (singly stream) stream := Wire.singly_segmented least stream
    have agrees : Agrees most (pull (lookEnd max tooLarge) (endedEnd ending) [] (singly stream))
      (streamEnd ending max tooLarge ([] ++ stream)) := toEnd_cut cut
    rw [List.nil_append, whole] at agrees
    obtain ⟨avail, reads, more, taken, -, cut', empty⟩ := agrees
    have none_ : rest = [] := by
      rw [streamEnd] at whole
      split at whole
      next => cases whole
      next =>
        cases ended : endedEnd ending stream with
        | error e => rw [ended] at whole; cases whole
        | ok taken => rw [ended] at whole; cases whole; rfl
    subst none_
    obtain ⟨rfl, rfl⟩ := List.append_eq_nil_iff.mp empty
    have done {reads : List Bytes} (cut : Segmented most reads []) : reads = [] := by
      cases reads with
      | nil => rfl
      | cons read reads =>
        obtain ⟨some_, -, more, empty, -⟩ := cut.cons
        exact absurd (List.append_eq_nil_iff.mp empty.symm).1 some_
    refine ⟨singly stream, stream, cut, (List.append_nil _).symm, fun more cut => ?_⟩
    rw [done cut, List.append_nil]
    rw [done cut'] at taken
    exact taken
  | sum a b bound =>
    rename_i x
    by_cases fits : x + b < bound
    · have whole : Except.ok (x + b, stream) = Except.ok (a, rest) := (if_pos fits).symm.trans whole
      cases whole
      exact ⟨[], [], ⟨rfl, fun s mem => absurd mem List.not_mem_nil⟩, rfl, fun reads _ => if_pos fits⟩
    · have whole : Except.error Fault.overflow = Except.ok (a, rest) := (if_neg fits).symm.trans whole
      cases whole
  | fail e => cases whole

theorem run_lucky (tooLong : ε) (ending : Option ε) (least : 0 < most) (p : Program (ReaderSig ε) α) (stream : Bytes) :
    ∃ reads, Segmented most reads stream ∧ run tooLong ending p [] reads = onStream tooLong ending most p stream := by
  induction p generalizing stream with
  | done a => exact ⟨_, Wire.singly_segmented least stream, rfl⟩
  | ask op next ih =>
    cases whole : serveStream tooLong ending most op stream with
    | error e =>
      refine ⟨_, Wire.singly_segmented least stream, ?_⟩
      rw [run_singly, onStream, onStream, serveStream_error least whole, whole]
    | ok taken =>
      obtain ⟨a, rest⟩ := taken
      obtain ⟨segments, front, cut, rfl, served⟩ := serve_lucky least whole
      obtain ⟨reads, cut', same⟩ := ih a rest
      refine ⟨segments ++ reads, cut.append cut', ?_⟩
      rw [run, onStream, served reads cut', whole]
      exact same

/-! ## Where the runs agree -/

theorem serveStream_loose (loose : Loose most op stream) : serveStream tooLong ending 1 op stream = .error (.error tooLong) := by
  obtain ⟨max, early, i, rfl, found, beyond, -⟩ := loose
  show streamLine _ _ _ _ _ _ = _
  rw [streamLine, found]
  dsimp only
  rw [if_neg (by omega)]

theorem serveStream_tight (least : 0 < most) (tight : ¬ Loose most op stream) :
    serveStream tooLong ending 1 op stream = serveStream tooLong ending most op stream := by
  cases op with
  | line max early =>
    show streamLine _ _ _ _ _ _ = streamLine _ _ _ _ _ _
    rw [streamLine, streamLine]
    cases found : positionOf crlf stream with
    | none => rfl
    | some i =>
      dsimp only
      by_cases wide : i + 2 ≤ max + most
      · have within : ¬ max < i + 1 := fun beyond => tight ⟨max, early, i, rfl, found, beyond, wide⟩
        rw [if_pos wide, if_pos (by omega)]
      · rw [if_neg wide, if_neg (by omega)]
  | exact | toEnd | sum | fail => rfl

theorem onStream_one (tooLong : ε) (ending : Option ε) (least : 0 < most) (p : Program (ReaderSig ε) α) (stream : Bytes) :
    onStream tooLong ending 1 p stream = onStream tooLong ending most p stream ∨
      onStream tooLong ending 1 p stream = .error (.error tooLong) := by
  have runs : run tooLong ending p [] (singly stream) = onStream tooLong ending most p ([] ++ stream) ∨ _ :=
    run_cut least p (Wire.singly_segmented least stream) (Nat.zero_le _)
  rw [run_singly] at runs
  exact runs.imp_right And.left

/-- The least and the greatest reads give the same exactly where no line that is asked for is loose, or a line is refused either
way. -/
theorem onStream_one_iff (least : 0 < most) (p : Program (ReaderSig ε) α) (stream : Bytes) :
    onStream tooLong ending 1 p stream = onStream tooLong ending most p stream ↔
      (∀ o ∈ asked tooLong ending most p stream, ¬ Loose most o.1 o.2) ∨
        onStream tooLong ending most p stream = .error (.error tooLong) := by
  constructor
  · intro same
    by_cases refused : onStream tooLong ending most p stream = .error (.error tooLong)
    · exact .inr refused
    · left
      induction p generalizing stream with
      | done a => exact fun o mem => absurd mem List.not_mem_nil
      | ask op next ih =>
        have tight : ¬ Loose most op stream := by
          intro loose
          refine refused ?_
          rw [← same, onStream, serveStream_loose loose]
        rw [asked]
        rintro o (_ | ⟨_, mem⟩)
        · exact tight
        · rw [onStream, onStream, serveStream_tight least tight] at same
          rw [onStream] at refused
          cases whole : serveStream tooLong ending most op stream with
          | error e => rw [whole] at mem; exact absurd mem List.not_mem_nil
          | ok taken =>
            rw [whole] at mem same refused
            exact ih taken.1 taken.2 same refused o mem
  · rintro (tight | refused)
    · induction p generalizing stream with
      | done a => rfl
      | ask op next ih =>
        rw [asked] at tight
        rw [onStream, onStream, serveStream_tight least (tight (op, stream) List.mem_cons_self)]
        cases whole : serveStream tooLong ending most op stream with
        | error e => rfl
        | ok taken =>
          refine ih taken.1 taken.2 fun o mem => tight o ?_
          rw [whole]
          exact List.mem_cons_of_mem _ mem
    · rcases onStream_one tooLong ending least p stream with same | refused'
      · exact same
      · rw [refused', refused]

/-- Where these two give the same, every run does. -/
theorem run_steady (least : 0 < most) {p : Program (ReaderSig ε) α}
    (steady : (∀ o ∈ asked tooLong ending most p stream, ¬ Loose most o.1 o.2) ∨
      onStream tooLong ending most p stream = .error (.error tooLong))
    (cut : Segmented most reads stream) : run tooLong ending p [] reads = onStream tooLong ending most p stream := by
  have same := (onStream_one_iff least p stream).mpr steady
  have runs : run tooLong ending p [] reads = onStream tooLong ending most p ([] ++ stream) ∨ _ :=
    run_cut least p cut (Nat.zero_le _)
  rcases runs with runs | ⟨refused, refused'⟩
  · exact runs
  · rw [refused, ← same]
    exact refused'.symm

/-- The runs agree exactly where no line that is asked for is loose, or a line is refused in the end. -/
theorem run_uncut_iff (least : 0 < most) (p : Program (ReaderSig ε) α) (stream : Bytes) :
    (∀ reads reads', Segmented most reads stream → Segmented most reads' stream →
        run tooLong ending p [] reads = run tooLong ending p [] reads') ↔
      (∀ o ∈ asked tooLong ending most p stream, ¬ Loose most o.1 o.2) ∨
        onStream tooLong ending most p stream = .error (.error tooLong) := by
  rw [← onStream_one_iff least p stream]
  constructor
  · intro uncut
    obtain ⟨reads, cut, lucky⟩ := run_lucky tooLong ending least p stream
    rw [← lucky, ← run_singly]
    exact uncut _ _ (Wire.singly_segmented least stream) cut
  · intro same reads reads' cut cut'
    have steady := (onStream_one_iff least p stream).mp same
    rw [run_steady least steady cut, run_steady least steady cut']

/-! ## Faults and results -/

theorem onStream_ask {next : op.Answer → Program (ReaderSig ε) α} {a : op.Answer} {rest : Bytes}
    (served : serveStream tooLong ending slack op stream = .ok (a, rest)) :
    onStream tooLong ending slack (.ask op next) stream = onStream tooLong ending slack (next a) rest := by
  rw [onStream, served]

/-- What succeeds byte by byte succeeds however the stream is cut. -/
theorem run_of_singly (least : 0 < most) {p : Program (ReaderSig ε) α} {a : α}
    (ok : onStream tooLong ending 1 p stream = .ok a) (cut : Segmented most reads stream) :
    run tooLong ending p [] reads = .ok a := by
  have runs : run tooLong ending p [] reads = onStream tooLong ending most p ([] ++ stream) ∨ _ :=
    run_cut least p cut (Nat.zero_le _)
  rw [List.nil_append] at runs
  rcases runs with same | ⟨_, refused⟩
  · rcases onStream_one tooLong ending least p stream with agree | refused
    · rw [same, ← agree, ok]
    · rw [ok] at refused
      cases refused
  · rw [ok] at refused
    cases refused

/-- A program fails with what the last operation fails with. -/
theorem onStream_error_iff {p : Program (ReaderSig ε) α} : onStream tooLong ending slack p stream = .error e ↔
    ∃ o ∈ asked tooLong ending slack p stream, serveStream tooLong ending slack o.1 o.2 = .error e := by
  induction p generalizing stream with
  | done a => exact ⟨fun h => (by cases h), fun ⟨o, mem, _⟩ => absurd mem List.not_mem_nil⟩
  | ask op next ih =>
    rw [onStream, asked]
    cases whole : serveStream tooLong ending slack op stream with
    | error e' =>
      constructor
      · intro same
        cases same
        exact ⟨_, List.mem_cons_self, whole⟩
      · rintro ⟨o, mem, fails⟩
        cases List.mem_singleton.mp mem
        rw [whole] at fails
        cases fails
        rfl
    | ok taken =>
      dsimp only
      rw [ih]
      constructor
      · rintro ⟨o, mem, fails⟩
        exact ⟨o, List.mem_cons_of_mem _ mem, fails⟩
      · rintro ⟨o, mem, fails⟩
        rcases List.mem_cons.mp mem with rfl | mem
        · rw [whole] at fails
          cases fails
        · exact ⟨o, mem, fails⟩

theorem serveStream_overflow_iff : serveStream tooLong ending slack op stream = .error .overflow ↔
    ∃ a b bound, op = .sum a b bound ∧ bound ≤ a + b := by
  cases op with
  | line max early =>
    refine ⟨fun fails => ?_, fun ⟨_, _, _, h, _⟩ => (by cases h)⟩
    have fails : streamLine tooLong ending slack max early stream = _ := fails
    rw [streamLine] at fails
    split at fails
    next => split at fails <;> cases fails
    next => cases fails
  | exact n early =>
    refine ⟨fun fails => ?_, fun ⟨_, _, _, h, _⟩ => (by cases h)⟩
    have fails : streamExact ending n early stream = _ := fails
    rw [streamExact] at fails
    split at fails <;> cases fails
  | toEnd max tooLarge =>
    refine ⟨fun fails => ?_, fun ⟨_, _, _, h, _⟩ => (by cases h)⟩
    have fails : streamEnd ending max tooLarge stream = _ := fails
    rw [streamEnd] at fails
    split at fails
    next => cases fails
    next => cases ending <;> cases fails
  | sum x y bound =>
    by_cases fits : x + y < bound
    · refine ⟨fun fails => ?_, ?_⟩
      · cases (if_pos fits).symm.trans fails
      · rintro ⟨_, _, _, same, beyond⟩
        cases same
        omega
    · exact ⟨fun _ => ⟨x, y, bound, rfl, Nat.le_of_not_lt fits⟩, fun _ => if_neg fits⟩
  | fail e => exact ⟨fun fails => (by cases fails), fun ⟨_, _, _, h, _⟩ => (by cases h)⟩

/-- Which answers an operation may get. -/
def Valid : (op : ReaderOp ε) → op.Answer → Prop
  | .line _ _, _ => True
  | .exact n _, taken => taken.length = n
  | .toEnd max _, taken => taken.length ≤ max
  | .sum a b bound, total => total = a + b ∧ a + b < bound
  | .fail _, _ => True

theorem serveStream_valid {a : op.Answer} {rest : Bytes} (served : serveStream tooLong ending slack op stream = .ok (a, rest)) :
    Valid op a := by
  cases op with
  | line | fail => trivial
  | exact n early =>
    have served : streamExact ending n early stream = .ok (a, rest) := served
    rw [streamExact] at served
    split at served
    next enough =>
      cases served
      exact (List.length_take ..).trans (Nat.min_eq_left enough)
    next => cases served
  | toEnd max tooLarge =>
    have served : streamEnd ending max tooLarge stream = .ok (a, rest) := served
    rw [streamEnd] at served
    split at served
    next => cases served
    next fits =>
      cases ending with
      | none =>
        cases served
        exact Nat.le_of_not_lt fits
      | some e => cases served
  | sum x y bound =>
    by_cases fits : x + y < bound
    · have served := (if_pos fits).symm.trans served
      cases served
      exact ⟨rfl, fits⟩
    · cases (if_neg fits).symm.trans served

/-- Whatever the answers are, a result is as said. -/
inductive Returns (post : α → Prop) : Program (ReaderSig ε) α → Prop where
  | done {a : α} (holds : post a) : Returns post (.done a)
  | ask {op : ReaderOp ε} {next : op.Answer → Program (ReaderSig ε) α} (each : ∀ a, Valid op a → Returns post (next a)) :
      Returns post (.ask op next)

theorem returns_bind {β : Type} {post : β → Prop} {p : Program (ReaderSig ε) α} {f : α → Program (ReaderSig ε) β}
    (returns : Returns (fun a => Returns post (f a)) p) : Returns post (p >>= f) := by
  induction returns with
  | done holds => exact holds
  | ask _ ih => exact .ask ih

theorem Returns.mono {post post' : α → Prop} {p : Program (ReaderSig ε) α} (weaker : ∀ a, post a → post' a)
    (returns : Returns post p) : Returns post' p := by
  induction returns with
  | done holds => exact .done (weaker _ holds)
  | ask _ ih => exact .ask ih

theorem Returns.onStream {post : α → Prop} {p : Program (ReaderSig ε) α} {a : α} (returns : Returns post p)
    (ok : onStream tooLong ending slack p stream = .ok a) : post a := by
  induction returns generalizing stream with
  | done holds =>
    cases ok
    exact holds
  | @ask op next _ ih =>
    rw [Reader.onStream] at ok
    cases whole : serveStream tooLong ending slack op stream with
    | error e => rw [whole] at ok; cases ok
    | ok taken =>
      rw [whole] at ok
      exact ih taken.1 (serveStream_valid whole) ok

end

end Reader

end Harpoon.Interact
