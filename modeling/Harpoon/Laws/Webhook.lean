import Harpoon.Git.Webhook
import Harpoon.Journal.Frame

/-!
# Requests in segments

What the listener makes of a request depends on the bytes alone, unless its head ends just at the limit: the limit is tested on what
has arrived, before the whole of the mark that ends the head. Nothing beyond the limits is accepted either way.
-/

namespace Harpoon.Git

open Desktop (crlfLines)
open Journal (bind_ok)
open Wire (Bytes positionOf Segmented singly)

/-! ## The whole stream -/

/-- The body of a stream whose head ends at `i`. -/
def wholeBody (ending : Ending) (stream : Bytes) (i len : Nat) : Except Reject Bytes :=
  if (stream.drop (i + 4)).length < len then .error (ending.reject earlyBody) else .ok ((stream.drop (i + 4)).take len)

/-- What is made of a stream that arrives at once. -/
def wholeRequest (ending : Ending) (stream : Bytes) : Except Reject Request :=
  match headEnd stream with
  | none => .error (if maxHead < stream.length then .tooLarge else ending.reject earlyHead)
  | some i => do
    if maxHead < i then throw .tooLarge
    let (method, path, headers, len) ← parseHead (stream.take i)
    let body ← wholeBody ending stream i len
    return { method, path, headers, body }

/-- However the stream is cut, the outcome is the same. -/
def Uncut (ending : Ending) (stream : Bytes) : Prop :=
  ∀ reads reads', Segmented 4096 reads stream → Segmented 4096 reads' stream →
    readRequest ending reads = readRequest ending reads'

/-- What is accepted is within the limits. -/
def Limited (ending : Ending) (stream : Bytes) : Prop :=
  ∀ reads q, Segmented 4096 reads stream → readRequest ending reads = .ok q →
    ∃ i, headEnd stream = some i ∧ i ≤ maxHead ∧ q.body.length ≤ maxBody

/-- The head does not end within the last bytes of the limit, or it declares a body that is refused as too large as well. -/
def Clear (stream : Bytes) : Prop :=
  ∀ i, headEnd stream = some i → maxHead < i + 3 → i ≤ maxHead → parseHead (stream.take i) = .error .tooLarge

section

variable {ending : Ending} {buf front : Bytes} {reads rest : List Bytes} {i len : Nat} {q : Request}

theorem mark_some : ([0x0D, 0x0A, 0x0D, 0x0A] : Bytes) ≠ [] := List.cons_ne_nil _ _

/-! ## Reading the head -/

theorem readHead_found (found : headEnd buf = some i) : readHead ending buf reads = .ok (i, buf, reads) := by
  cases reads <;> rw [readHead, found]

theorem readHead_full (none_ : headEnd buf = none) (full : maxHead < buf.length) : readHead ending buf reads = .error .tooLarge := by
  cases reads with
  | nil => rw [readHead, none_]; dsimp only; rw [if_pos full]
  | cons => rw [readHead, none_]; dsimp only; rw [if_pos full]

theorem readHead_more {read : Bytes} (none_ : headEnd buf = none) (room : buf.length ≤ maxHead) (some_ : read ≠ []) :
    readHead ending buf (read :: reads) = readHead ending (buf ++ read) reads := by
  rw [readHead, none_]
  dsimp only
  rw [if_neg (Nat.not_lt.mpr room), if_neg some_]

/-- A head that ends is read to its end, unless a read ends beyond the limit and within the end of the head. -/
theorem readHead_ends (some_ : ∀ r ∈ reads, r ≠ []) (ends : headEnd (buf ++ reads.flatten) = some i) :
    (∃ front rest, readHead ending buf reads = .ok (i, front, rest) ∧ front ++ rest.flatten = buf ++ reads.flatten ∧
        i + 4 ≤ front.length ∧ ∀ r ∈ rest, r ≠ []) ∨
      readHead ending buf reads = .error .tooLarge ∧ maxHead < i + 3 := by
  induction reads generalizing buf with
  | nil =>
    rw [List.flatten_nil, List.append_nil] at ends
    exact .inl ⟨buf, [], readHead_found ends, rfl, Wire.positionOf_bound ends, some_⟩
  | cons read reads ih =>
    cases found : headEnd buf with
    | some j =>
      have same : j = i := by
        have whole := Wire.positionOf_append (b := (read :: reads).flatten) found
        rw [headEnd, whole] at ends
        exact Option.some.inj ends
      subst same
      exact .inl ⟨buf, read :: reads, readHead_found found, rfl, Wire.positionOf_bound found, some_⟩
    | none =>
      by_cases full : maxHead < buf.length
      · refine .inr ⟨readHead_full found full, ?_⟩
        have outside : ¬ i + 4 ≤ buf.length := by
          intro inside
          rw [headEnd, Wire.positionOf_front mark_some ends inside] at found
          cases found
        omega
      · rw [List.flatten_cons, ← List.append_assoc] at ends ⊢
        rw [readHead_more found (Nat.le_of_not_lt full) (some_ read List.mem_cons_self)]
        exact ih (fun r mem => some_ r (List.mem_cons_of_mem _ mem)) ends

theorem readHead_endless (ending : Ending) (some_ : ∀ r ∈ reads, r ≠ []) (endless : headEnd (buf ++ reads.flatten) = none) :
    readHead ending buf reads =
      .error (if maxHead < (buf ++ reads.flatten).length then .tooLarge else ending.reject earlyHead) := by
  induction reads generalizing buf with
  | nil =>
    rw [List.flatten_nil, List.append_nil] at endless ⊢
    rw [readHead, endless]
    dsimp only
    split <;> rfl
  | cons read reads ih =>
    have none_ := Wire.positionOf_part endless
    by_cases full : maxHead < buf.length
    · rw [readHead_full none_ full, List.length_append, if_pos (Nat.lt_of_lt_of_le full (Nat.le_add_right ..))]
    · rw [readHead_more none_ (Nat.le_of_not_lt full) (some_ read List.mem_cons_self)]
      rw [List.flatten_cons, ← List.append_assoc] at endless ⊢
      exact ih (fun r mem => some_ r (List.mem_cons_of_mem _ mem)) endless

/-! ## Reading the body -/

theorem readBody_whole (some_ : ∀ r ∈ reads, r ≠ []) (within : buf.length ≤ len) :
    readBody ending len buf reads =
      if (buf ++ reads.flatten).length < len then .error (ending.reject earlyBody) else .ok ((buf ++ reads.flatten).take len) := by
  induction reads generalizing buf with
  | nil =>
    rw [List.flatten_nil, List.append_nil, readBody]
    split
    next => rfl
    next enough => rw [List.take_of_length_le within]
  | cons read reads ih =>
    rw [readBody]
    split
    next short =>
      rw [if_neg (some_ read List.mem_cons_self), ih (fun r mem => some_ r (List.mem_cons_of_mem _ mem))
        (by rw [List.length_append, List.length_take]; omega)]
      by_cases fits : read.length ≤ len - buf.length
      · rw [List.take_of_length_le fits, List.flatten_cons, List.append_assoc]
      · -- What this read has beyond the length is dropped, and nothing more is read.
        have cut : (buf ++ read.take (len - buf.length)).length = len := by
          rw [List.length_append, List.length_take]
          omega
        have enough : ¬ (buf ++ read.take (len - buf.length) ++ reads.flatten).length < len := by
          rw [List.length_append, cut]
          omega
        have enough' : ¬ (buf ++ (read :: reads).flatten).length < len := by
          rw [List.length_append, List.flatten_cons, List.length_append]
          omega
        rw [if_neg enough, if_neg enough', List.take_append_of_le_length (Nat.le_of_eq cut.symm),
          List.take_of_length_le (Nat.le_of_eq cut), List.take_append, List.take_of_length_le within, List.flatten_cons,
          List.take_append_of_le_length (by omega)]
    next full =>
      have enough : ¬ (buf ++ (read :: reads).flatten).length < len := by
        rw [List.length_append]
        omega
      rw [if_neg enough, List.take_append_of_le_length (by omega), List.take_of_length_le within]

/-! ## A request -/

theorem some_of_segmented {most : Nat} {stream : Bytes} (cut : Segmented most reads stream) : ∀ r ∈ reads, r ≠ [] :=
  fun r mem => (cut.each r mem).1

variable {stream : Bytes}

/-- A stream whose head is read to its end is read as it would be at once. -/
theorem readRequest_read (read : readHead ending [] reads = .ok (i, front, rest)) (whole : front ++ rest.flatten = stream)
    (ends : headEnd stream = some i) (inside : i + 4 ≤ front.length) (some_ : ∀ r ∈ rest, r ≠ []) :
    readRequest ending reads = wholeRequest ending stream := by
  have head : front.take i = stream.take i := by rw [← whole, List.take_append_of_le_length (by omega)]
  have body (len : Nat) : readBody ending len ((front.drop (i + 4)).take len) rest = wholeBody ending stream i len := by
    have behind : stream.drop (i + 4) = front.drop (i + 4) ++ rest.flatten := by
      rw [← whole, List.drop_append_of_le_length inside]
    rw [readBody_whole some_ (by rw [List.length_take]; omega), wholeBody, behind]
    by_cases all : (front.drop (i + 4)).length ≤ len
    · rw [List.take_of_length_le all]
    · have enough : ((front.drop (i + 4)).take len).length = len := by rw [List.length_take]; omega
      have long : ¬ ((front.drop (i + 4)).take len ++ rest.flatten).length < len := by
        rw [List.length_append, enough]
        omega
      have long' : ¬ (front.drop (i + 4) ++ rest.flatten).length < len := by
        rw [List.length_append]
        omega
      rw [if_neg long, if_neg long', List.take_append_of_le_length (Nat.le_of_eq enough.symm),
        List.take_of_length_le (Nat.le_of_eq enough), List.take_append_of_le_length (by omega)]
  rw [readRequest, read, wholeRequest, ends]
  dsimp only [bind, Except.bind]
  rw [head]
  by_cases far : maxHead < i
  · rw [if_pos far, if_pos far]
    rfl
  · rw [if_neg far, if_neg far]
    cases parseHead (stream.take i) with
    | error e => rfl
    | ok parsed =>
      obtain ⟨method, path, headers, len⟩ := parsed
      dsimp only [pure, Except.pure]
      rw [body]

/-- Every outcome is the one of the whole, or the refusal of a head that is too large. -/
theorem readRequest_cut (ending : Ending) (cut : Segmented 4096 reads stream) :
    readRequest ending reads = wholeRequest ending stream ∨
      readRequest ending reads = .error .tooLarge ∧ ∃ i, headEnd stream = some i ∧ maxHead < i + 3 := by
  have flat : ([] : Bytes) ++ reads.flatten = stream := cut.whole
  cases ends : headEnd stream with
  | none =>
    left
    have read := readHead_endless ending (some_of_segmented cut) (flat ▸ ends)
    rw [readRequest, read, wholeRequest, ends, flat]
    rfl
  | some i =>
    rcases readHead_ends (some_of_segmented cut) (flat ▸ ends) with ⟨front, rest, read, whole, inside, some_⟩ | ⟨full, near⟩
    · exact .inl (readRequest_read read (whole.trans flat) ends inside some_)
    · refine .inr ⟨?_, i, rfl, near⟩
      rw [readRequest, full]
      rfl

/-! ## Limits -/

theorem declaredLength_le {headers : Headers} (declared : declaredLength headers = .ok len) : len ≤ maxBody := by
  rw [declaredLength] at declared
  split at declared
  next => cases declared
  split at declared
  next =>
    cases declared
    exact Nat.zero_le _
  split at declared
  next => cases declared
  split at declared
  next => cases declared
  next fits =>
    cases declared
    exact Nat.le_of_not_lt fits

theorem parseHead_le {head : Bytes} {method path : String} {headers : Headers}
    (parsed : parseHead head = .ok (method, path, headers, len)) : len ≤ maxBody := by
  rw [parseHead] at parsed
  split at parsed
  next => cases parsed
  next text =>
    obtain ⟨_, _, parsed₁⟩ := bind_ok parsed
    obtain ⟨_, _, parsed₂⟩ := bind_ok parsed₁
    obtain ⟨_, declared, done⟩ := bind_ok parsed₂
    cases done
    exact declaredLength_le declared

theorem reject_small (ending : Ending) (early : String) : ending.reject early ≠ .tooLarge := by
  cases ending <;> exact fun h => by cases h

/-- What a whole stream is, once its head has ended. -/
theorem wholeRequest_ok (ok : wholeRequest ending stream = .ok q) :
    ∃ i, headEnd stream = some i ∧ i ≤ maxHead ∧ q.body.length ≤ maxBody := by
  rw [wholeRequest] at ok
  split at ok
  next => cases ok
  next i ends =>
    split at ok
    next => cases ok
    next near =>
      obtain ⟨⟨method, path, headers, len⟩, parsed, ok₁⟩ := bind_ok ok
      obtain ⟨body, read, done⟩ := bind_ok ok₁
      cases done
      refine ⟨i, ends, Nat.le_of_not_lt near, ?_⟩
      rw [wholeBody] at read
      split at read
      next => cases read
      next =>
        cases read
        exact Nat.le_trans (List.length_take_le ..) (parseHead_le parsed)

theorem limited (ending : Ending) (stream : Bytes) : Limited ending stream := by
  intro reads q cut ok
  rcases readRequest_cut ending cut with whole | ⟨full, _⟩
  · exact wholeRequest_ok (whole ▸ ok)
  · rw [full] at ok
    cases ok

/-- A head that ends within the last bytes of the limit is refused as too large exactly when its body is. -/
theorem wholeRequest_near (ends : headEnd stream = some i) (near : i ≤ maxHead) :
    wholeRequest ending stream = .error .tooLarge ↔ parseHead (stream.take i) = .error .tooLarge := by
  rw [wholeRequest, ends]
  dsimp only [bind, Except.bind]
  rw [if_neg (Nat.not_lt.mpr near)]
  cases parsed : parseHead (stream.take i) with
  | error e => exact ⟨fun h => (by cases h; rfl), fun h => (by cases h; rfl)⟩
  | ok parts =>
    obtain ⟨method, path, headers, len⟩ := parts
    refine ⟨fun h => ?_, fun h => (by cases h)⟩
    dsimp only [pure, Except.pure] at h
    rw [wholeBody] at h
    by_cases short : (stream.drop (i + 4)).length < len
    · rw [if_pos short] at h
      exact absurd (Except.error.inj h) (reject_small ending earlyBody)
    · rw [if_neg short] at h
      cases h

theorem wholeRequest_clear (clear : Clear stream) (ends : headEnd stream = some i) (near : maxHead < i + 3) :
    wholeRequest ending stream = .error .tooLarge := by
  by_cases far : maxHead < i
  · rw [wholeRequest, ends]
    dsimp only [bind, Except.bind]
    rw [if_pos far]
    rfl
  · exact (wholeRequest_near ends (Nat.le_of_not_lt far)).mpr (clear i ends near (Nat.le_of_not_lt far))

/-! ## Two ways to cut -/

theorem readHead_singly {bs : Bytes} (early : headEnd (buf ++ bs) = none) (short : (buf ++ bs).length ≤ maxHead + 1) :
    readHead ending buf (singly bs ++ rest) = readHead ending (buf ++ bs) rest := by
  induction bs generalizing buf with
  | nil => rw [List.append_nil]; rfl
  | cons b bs ih =>
    have none_ := Wire.positionOf_part early
    have same : buf ++ b :: bs = buf ++ [b] ++ bs := by rw [List.append_assoc, List.singleton_append]
    rw [List.length_append, List.length_cons] at short
    rw [same] at early ⊢
    show readHead ending buf ([b] :: (singly bs ++ rest)) = _
    rw [readHead_more none_ (by omega) (List.cons_ne_nil _ _)]
    exact ih early (by rw [List.length_append, List.length_append, List.length_singleton]; omega)

/-- Byte by byte, a head that ends behind the limit or within its last bytes is refused. -/
theorem readRequest_singly (ends : headEnd stream = some i) (near : maxHead < i + 3) :
    readRequest ending (singly stream) = .error .tooLarge := by
  have bound : i + 4 ≤ stream.length := Wire.positionOf_bound ends
  have split : stream.take (maxHead + 1) ++ stream.drop (maxHead + 1) = stream := List.take_append_drop ..
  have length : (stream.take (maxHead + 1)).length = maxHead + 1 := by
    rw [List.length_take]
    omega
  have early : headEnd ([] ++ stream.take (maxHead + 1)) = none := by
    refine Wire.positionOf_early (b := stream.drop (maxHead + 1)) (split.symm ▸ ends) ?_
    rw [List.nil_append, length]
    show maxHead + 1 < i + 4
    omega
  have cut : singly stream = singly (stream.take (maxHead + 1)) ++ singly (stream.drop (maxHead + 1)) := by
    rw [singly, singly, singly, ← List.map_append, split]
  rw [cut, readRequest, readHead_singly early (Nat.le_of_eq length), readHead_full early (by
    rw [List.nil_append, length]
    omega)]
  rfl

/-- There is a way to cut it such that the head is read to its end, if it ends within the limit. -/
theorem readRequest_lucky (ending : Ending) (ends : headEnd stream = some i) (near : maxHead < i + 4) (within : i ≤ maxHead) :
    ∃ reads, Segmented 4096 reads stream ∧ readRequest ending reads = wholeRequest ending stream := by
  have bound : i + 4 ≤ stream.length := Wire.positionOf_bound ends
  have length : (stream.take maxHead).length = maxHead := by
    rw [List.length_take]
    omega
  have early : headEnd ([] ++ stream.take maxHead) = none := by
    refine Wire.positionOf_early (b := stream.drop maxHead) ((List.take_append_drop maxHead stream).symm ▸ ends) ?_
    rw [List.nil_append, length]
    exact near
  have last : (stream.drop maxHead).take (i + 4 - maxHead) ≠ [] := by
    intro empty
    have := congrArg List.length empty
    rw [List.length_take, List.length_drop, List.length_nil] at this
    omega
  have front : stream.take maxHead ++ (stream.drop maxHead).take (i + 4 - maxHead) = stream.take (i + 4) := by
    have sum : i + 4 = maxHead + (i + 4 - maxHead) := by omega
    rw [sum, List.take_add]
    rw [← sum]
  have whole : stream.take (i + 4) ++ stream.drop (i + 4) = stream := List.take_append_drop ..
  have inside : (stream.take (i + 4)).length = i + 4 := by
    rw [List.length_take]
    omega
  have found : headEnd (stream.take (i + 4)) = some i :=
    Wire.positionOf_front mark_some (b := stream.drop (i + 4)) (whole.symm ▸ ends) (Nat.le_of_eq inside.symm)
  refine ⟨singly (stream.take maxHead) ++ [(stream.drop maxHead).take (i + 4 - maxHead)] ++ singly (stream.drop (i + 4)), ?_, ?_⟩
  · have short : ((stream.drop maxHead).take (i + 4 - maxHead)).length ≤ 4096 := by
      rw [List.length_take]
      omega
    have first : Segmented 4096 (singly (stream.take maxHead)) (stream.take maxHead) := Wire.singly_segmented (by decide) _
    have cut := (first.append (.one last short)).append (Wire.singly_segmented (by decide) (stream.drop (i + 4)))
    rw [front, whole] at cut
    exact cut
  · refine readRequest_read (i := i) ?_ ?_ ends (Nat.le_of_eq inside.symm)
      (some_of_segmented (Wire.singly_segmented (by decide : 0 < 1) (stream.drop (i + 4))))
    · rw [List.append_assoc, readHead_singly early (by rw [List.nil_append, length]; omega), List.singleton_append,
        readHead_more early (Nat.le_of_eq length) last, List.nil_append, front, readHead_found found]
    · rw [(Wire.singly_segmented (by decide : 0 < 1) (stream.drop (i + 4))).whole, whole]

theorem clear_of_uncut (uncut : Uncut ending stream) : Clear stream := by
  intro i ends near within
  obtain ⟨reads, cut, whole⟩ := readRequest_lucky ending ends (Nat.lt_succ_of_lt near) within
  have same := uncut _ _ cut (Wire.singly_segmented (by decide) stream)
  rw [whole, readRequest_singly ends near] at same
  exact (wholeRequest_near ends within).mp same

/-- The outcome does not depend on how the stream is cut, and what is accepted is within the limits, exactly when the head does not
end within the last bytes of the limit or its body is refused as too large as well. -/
theorem readRequest_uncut_iff (ending : Ending) (stream : Bytes) :
    Uncut ending stream ∧ Limited ending stream ↔ Clear stream := by
  refine ⟨fun h => clear_of_uncut h.1, fun clear => ?_⟩
  have each {reads : List Bytes} (cut : Segmented 4096 reads stream) : readRequest ending reads = wholeRequest ending stream := by
    rcases readRequest_cut ending cut with whole | ⟨full, i, ends, near⟩
    · exact whole
    · rw [full, wholeRequest_clear clear ends near]
  exact ⟨fun reads reads' cut cut' => (each cut).trans (each cut').symm, limited ending stream⟩

end

/-! ## A head as long as the limit -/

/-- A request of one header field, whose head takes 18 bytes more. -/
def longRequest (n : Nat) : Bytes :=
  Wire.utf8 (String.ofList ("GET / HTTP/1.1\r\nX:".toList ++ List.replicate n 'a')) ++ [0x0D, 0x0A, 0x0D, 0x0A]

theorem utf8_longHead (n : Nat) : Wire.utf8 (String.ofList ("GET / HTTP/1.1\r\nX:".toList ++ List.replicate n 'a')) =
    Wire.utf8 "GET / HTTP/1.1\r\nX:" ++ List.replicate n 97 := by
  have letters : (List.replicate n 'a').flatMap String.utf8EncodeChar = List.replicate n 97 := by
    induction n with
    | zero => rfl
    | succ n ih => exact congrArg (97 :: ·) ih
  rw [Wire.utf8_eq, Wire.utf8_eq, String.toList_ofList, List.flatMap_append, letters]

theorem headEnd_longRequest (n : Nat) : headEnd (longRequest n) = some (n + 18) := by
  have free : (0x0D : UInt8) ∉ List.replicate n 97 := fun mem => absurd (List.mem_replicate.mp mem).2 (by decide)
  have letters : headEnd (List.replicate n 97 ++ [0x0D, 0x0A, 0x0D, 0x0A]) = some n := by
    have past : positionOf (0x0D :: [0x0A, 0x0D, 0x0A]) (List.replicate n 97 ++ (0x0D :: [0x0A, 0x0D, 0x0A]) ++ []) = _ :=
      Wire.positionOf_past free
    rw [List.length_replicate, List.append_nil] at past
    exact past
  have front : Wire.apart [0x0D, 0x0A, 0x0D, 0x0A] (Wire.utf8 "GET / HTTP/1.1\r\nX:") = true := by decide
  rw [longRequest, utf8_longHead, List.append_assoc, headEnd, Wire.positionOf_apart front]
  show (headEnd _).map _ = _
  rw [letters]
  rfl

theorem parseHead_longRequest (n : Nat) :
    ∃ headers, parseHead ((longRequest n).take (n + 18)) = .ok ("GET", "/", headers, 0) := by
  have head : (longRequest n).take (n + 18) =
      Wire.utf8 (String.ofList ("GET / HTTP/1.1\r\nX:".toList ++ List.replicate n 'a')) := by
    have length : (Wire.utf8 (String.ofList ("GET / HTTP/1.1\r\nX:".toList ++ List.replicate n 'a'))).length = n + 18 := by
      rw [utf8_longHead, List.length_append, List.length_replicate, Nat.add_comm]
      rfl
    rw [longRequest, List.take_append_of_le_length (Nat.le_of_eq length.symm), List.take_of_length_le (Nat.le_of_eq length)]
  have free : '\r' ∉ ['X', ':'] ++ List.replicate n 'a' := by
    intro mem
    rcases List.mem_append.mp mem with mem | mem
    · exact absurd mem (by decide)
    · exact absurd (List.mem_replicate.mp mem).2 (by decide)
  have lines : crlfLines ("GET / HTTP/1.1\r\nX:".toList ++ List.replicate n 'a') =
      ["GET / HTTP/1.1".toList, ['X', ':'] ++ List.replicate n 'a'] := by
    have split : "GET / HTTP/1.1\r\nX:".toList ++ List.replicate n 'a' =
        "GET / HTTP/1.1".toList ++ '\r' :: '\n' :: (['X', ':'] ++ List.replicate n 'a') := by
      rw [show "GET / HTTP/1.1\r\nX:".toList = "GET / HTTP/1.1".toList ++ ['\r', '\n', 'X', ':'] from by decide, List.append_assoc]
      rfl
    rw [split, Desktop.crlfLines_line (by decide), Desktop.crlfLines_free free]
  have field : parseHeader (String.ofList (['X', ':'] ++ List.replicate n 'a')) =
      .ok (Desktop.trim "X", Desktop.trim (String.ofList (List.replicate n 'a'))) := by
    have text : String.ofList (['X', ':'] ++ List.replicate n 'a') =
        "X" ++ (String.singleton ':' ++ String.ofList (List.replicate n 'a')) :=
      String.toList_inj.mp (by simp)
    rw [parseHeader, Wire.splitOnce_iff.mpr ⟨text, by decide⟩]
  refine ⟨[(Desktop.trim "X", Desktop.trim (String.ofList (List.replicate n 'a')))], ?_⟩
  have request : parseRequestLine "GET / HTTP/1.1" = .ok ("GET", "/") := Journal.ok_of_toOption (by decide)
  rw [head, parseHead, Wire.fromUtf8_utf8]
  dsimp only
  rw [String.toList_ofList, lines]
  show (parseRequestLine (String.ofList "GET / HTTP/1.1".toList) >>= _) = _
  rw [String.ofList_toList, request]
  show ((([['X', ':'] ++ List.replicate n 'a'].map String.ofList).mapM parseHeader) >>= _) = _
  rw [List.map_cons, List.map_nil, List.mapM_cons, List.mapM_nil, field]
  have none_ {name : String} (other : lowered (Desktop.trim "X") ≠ lowered name) :
      Headers.get [(Desktop.trim "X", Desktop.trim (String.ofList (List.replicate n 'a')))] name = none := by
    rw [Headers.get, List.find?_cons_of_neg (by simpa using other)]
    rfl
  have length : declaredLength [(Desktop.trim "X", Desktop.trim (String.ofList (List.replicate n 'a')))] = .ok 0 := by
    rw [declaredLength, none_ (by decide), none_ (by decide)]
    rfl
  show (declaredLength [(Desktop.trim "X", Desktop.trim (String.ofList (List.replicate n 'a')))] >>= _) = _
  rw [length]
  rfl

/-- Byte by byte it is refused as too large, and in reads that end with the head it is accepted. -/
theorem long_head_cut : ¬ ∀ ending stream, Uncut ending stream ∧ Limited ending stream := by
  intro each
  have clear := clear_of_uncut (each .closed (longRequest 16366)).1
  obtain ⟨headers, parsed⟩ := parseHead_longRequest 16366
  have refused := clear maxHead (headEnd_longRequest 16366) (by decide) (Nat.le_refl _)
  rw [show maxHead = 16366 + 18 from rfl, parsed] at refused
  cases refused

end Harpoon.Git
