import Harpoon.Laws.Router
import Harpoon.Wire.Segments
import Harpoon.Wire.Utf8

/-!
# The head of a request in segments

The router decides on all that it has read when the head has ended, and tests the limit of the head on what has arrived before. So
the decision is that of the head alone exactly when the bytes that can come with the end of the head are ASCII, or the head is no text
itself, and the head is not within the last read of its limit. An application gets what the client sends in any case.
-/

namespace Harpoon.Desktop

open Deploy (Route RouteTable)
open Wire (Bytes Segmented fromUtf8 positionOf singly utf8)

def headMark : Bytes := [0x0D, 0x0A, 0x0D, 0x0A]

/-- The bytes of a head, which an empty line ends. -/
def IsHead (head : Bytes) : Prop := ∃ front, head = front ++ headMark ∧ positionOf headMark head = some front.length

/-- The answer without the bytes that are forwarded. -/
def Answer.decision : Answer → Answer
  | .forward port _ => .forward port []
  | a => a

/-- However it arrives, a request is decided on as its head alone, and an application to which it is forwarded gets all of it. -/
def Decided (own : UInt16) (table again : RouteTable) (connects reconnects : UInt16 → Bool) (head body : Bytes) : Prop :=
  ∀ reads reads', Segmented 2048 reads (head ++ body) → Segmented 2048 reads' head →
    (serve own table again connects reconnects (reads.map some)).decision =
        (serve own table again connects reconnects (reads'.map some)).decision ∧
      ∀ port read, serve own table again connects reconnects (reads.map some) = .forward port read →
        received (reads.map some) (.forward port read) = head ++ body

/-- The head is refused as too long in any case; or it is within the limit, and is no text, or what can come with the end of it is
ASCII. -/
def Steady (head body : Bytes) : Prop :=
  headLimit + 2048 < head.length ∨
    head.length ≤ headLimit + 1 ∧ (fromUtf8 head = none ∨ ∀ b ∈ body.take 2047, b.toNat < 128)

section

variable {head body avail more : Bytes} {reads : List Bytes} {rest : List (Option Bytes)}

/-! ## Reading the head -/

theorem headMark_some : headMark ≠ [] := List.cons_ne_nil _ _

theorem endsHead_eq (bs : Bytes) : endsHead bs = (positionOf headMark bs).isSome := by
  induction bs with
  | nil => rfl
  | cons b bs ih =>
    rw [endsHead, positionOf, ih]
    cases here : headMark.isPrefixOf (b :: bs) with
    | true =>
      show (headMark.isPrefixOf (b :: bs) || _) = _
      rw [here]
      rfl
    | false =>
      show (headMark.isPrefixOf (b :: bs) || _) = _
      rw [here, Bool.false_or, if_neg (by decide), Option.isSome_map]

/-- The head has ended as soon as all of it is there, and not before. -/
theorem endsHead_iff (is : IsHead head) (whole : avail ++ more = head ++ body) : endsHead avail = true ↔ head.length ≤ avail.length := by
  obtain ⟨front, rfl, first⟩ := is
  have found : positionOf headMark (avail ++ more) = some front.length := by
    rw [whole]
    exact Wire.positionOf_append first
  have length : (front ++ headMark).length = front.length + headMark.length := List.length_append
  rw [endsHead_eq, length]
  constructor
  · intro ends
    obtain ⟨j, here⟩ := Option.isSome_iff_exists.mp ends
    have same := (Wire.positionOf_append here).symm.trans found
    cases same
    exact Wire.positionOf_bound here
  · intro inside
    rw [Wire.positionOf_front headMark_some found inside]
    rfl

theorem readHead_ended (ended : endsHead avail = true) : readHead avail rest = some avail ∧ unread avail rest = rest := by
  cases rest with
  | nil => exact ⟨by rw [readHead, if_pos ended], by rw [unread]⟩
  | cons read rest =>
    constructor
    · unfold readHead
      exact if_pos ended
    · unfold unread
      exact if_pos ended

theorem readHead_full {read : Bytes} (open_ : ¬ endsHead avail = true) (full : headLimit < avail.length) :
    readHead avail (some read :: rest) = none := by
  cases read with
  | nil =>
    rw [readHead, if_neg open_, if_pos full]
    nofun
  | cons b bs => rw [readHead, if_neg open_, if_pos full]

theorem readHead_step {read : Bytes} (open_ : ¬ endsHead avail = true) (room : avail.length ≤ headLimit) (some_ : read ≠ []) :
    readHead avail (some read :: rest) = readHead (avail ++ read) rest ∧
      unread avail (some read :: rest) = unread (avail ++ read) rest := by
  cases read with
  | nil => exact absurd rfl some_
  | cons b bs =>
    exact ⟨by rw [readHead, if_neg open_, if_neg (Nat.not_lt.mpr room)], by rw [unread, if_neg open_]⟩

theorem copied_segments (cut : Segmented 2048 reads more) : copied (reads.map some) = more := by
  induction reads generalizing more with
  | nil => exact cut.nil.symm
  | cons read reads ih =>
    obtain ⟨some_, -, more, rfl, rest⟩ := cut.cons
    cases read with
    | nil => exact absurd rfl some_
    | cons b bs =>
      rw [List.map_cons, copied, ih rest]

/-- The head is read with some of what is behind it, which the rest of the reads completes; or it was refused as too long. -/
theorem readHead_cut (is : IsHead head) (cut : Segmented 2048 reads more) (whole : avail ++ more = head ++ body)
    (open_ : avail.length < head.length) :
    readHead avail (reads.map some) = none ∧ headLimit + 1 < head.length ∨
      ∃ x y, body = x ++ y ∧ x.length < 2048 ∧ head.length ≤ headLimit + 2048 ∧
        readHead avail (reads.map some) = some (head ++ x) ∧ copied (unread avail (reads.map some)) = y := by
  induction reads generalizing avail more with
  | nil =>
    obtain rfl := cut.nil
    have length := congrArg List.length whole
    rw [List.length_append, List.length_append, List.length_nil] at length
    omega
  | cons read reads ih =>
    obtain ⟨some_, short, more, rfl, rest⟩ := cut.cons
    have unended : ¬ endsHead avail = true := fun ended => Nat.not_le.mpr open_ ((endsHead_iff is whole).mp ended)
    by_cases full : headLimit < avail.length
    · left
      refine ⟨?_, by omega⟩
      rw [List.map_cons, readHead_full unended full]
    · obtain ⟨reading, unreading⟩ :
          readHead avail (some read :: reads.map some) = readHead (avail ++ read) (reads.map some) ∧ _ :=
        readHead_step unended (Nat.le_of_not_lt full) some_
      rw [List.map_cons, reading, unreading]
      rw [← List.append_assoc] at whole
      by_cases more_ : (avail ++ read).length < head.length
      · exact ih rest whole more_
      · right
        have enough := Nat.le_of_not_lt more_
        obtain ⟨ended, left⟩ : readHead (avail ++ read) (reads.map some) = _ ∧ _ :=
          readHead_ended ((endsHead_iff is whole).mpr enough)
        obtain ⟨x, front⟩ : ∃ x, avail ++ read = head ++ x := by
          have start : head <+: avail ++ read :=
            List.prefix_of_prefix_length_le ⟨body, whole.symm⟩ ⟨more, rfl⟩ enough
          exact start.imp fun _ same => same.symm
        have length := congrArg List.length front
        rw [List.length_append] at length enough
        rw [List.length_append] at length
        rw [front, List.append_assoc] at whole
        refine ⟨x, more, (List.append_cancel_left whole).symm, by omega, by omega, ?_, ?_⟩
        · rw [ended, front]
        · rw [left]
          exact copied_segments rest

/-- Single bytes are read on within the limit, as long as the head has not ended. -/
theorem readHead_singly {front : Bytes} (is : IsHead head) (whole : avail ++ front ++ more = head ++ body)
    (inside : (avail ++ front).length < head.length) (room : (avail ++ front).length ≤ headLimit + 1) :
    readHead avail ((singly front).map some ++ rest) = readHead (avail ++ front) rest ∧
      unread avail ((singly front).map some ++ rest) = unread (avail ++ front) rest := by
  induction front generalizing avail with
  | nil =>
    rw [List.append_nil]
    exact ⟨rfl, rfl⟩
  | cons b front ih =>
    have split : avail ++ b :: front = avail ++ [b] ++ front := by rw [List.append_assoc, List.singleton_append]
    rw [split] at whole inside room ⊢
    obtain ⟨reading, unreading⟩ := ih whole inside room
    simp only [List.length_append, List.length_singleton] at inside room
    have unended : ¬ endsHead avail = true := by
      intro ended
      have long := (endsHead_iff is (by rw [List.append_assoc, List.append_assoc] at whole; exact whole)).mp ended
      omega
    obtain ⟨first, first'⟩ : readHead avail (some [b] :: ((singly front).map some ++ rest)) = _ ∧ _ :=
      readHead_step unended (by omega) (List.cons_ne_nil b [])
    exact ⟨first.trans reading, first'.trans unreading⟩

/-- The head can be read with any of the bytes behind it that fit into its last read. -/
theorem readHead_lucky {front last x : Bytes} (is : IsHead (front ++ last)) (some_ : last ≠ []) (room : front.length ≤ headLimit) :
    readHead [] ((singly front).map some ++ some (last ++ x) :: rest) = some (front ++ last ++ x) := by
  have positive : 0 < last.length := List.length_pos_iff.mpr some_
  have length : (front ++ last).length = front.length + last.length := List.length_append
  have upto : readHead [] ((singly front).map some ++ some (last ++ x) :: rest) = readHead front (some (last ++ x) :: rest) :=
    (readHead_singly is (show [] ++ front ++ last = front ++ last ++ [] by simp) (by rw [List.nil_append]; omega)
      (by rw [List.nil_append]; omega)).1
  have whole : front ++ (last ++ x) = front ++ last ++ x := (List.append_assoc ..).symm
  have unended : ¬ endsHead front = true := fun ended => by
    have long := (endsHead_iff is whole).mp ended
    omega
  have ended : endsHead (front ++ last ++ x) = true := by
    have all : front ++ last ++ x ++ [] = front ++ last ++ x := List.append_nil _
    have longer : (front ++ last ++ x).length = (front ++ last).length + x.length := List.length_append
    exact (endsHead_iff is all).mpr (by omega)
  rw [upto, (readHead_step unended room (List.append_ne_nil_of_left_ne_nil some_ x)).1, whole, (readHead_ended ended).1]

/-- Byte by byte a head beyond the limit is refused. -/
theorem readHead_long (is : IsHead head) (long : headLimit + 1 < head.length) : readHead [] ((singly head).map some ++ rest) = none := by
  have split : head = head.take (headLimit + 1) ++ head.drop (headLimit + 1) := (List.take_append_drop ..).symm
  have length : (head.take (headLimit + 1)).length = headLimit + 1 := by
    rw [List.length_take]
    omega
  have behind : head.drop (headLimit + 1) ≠ [] := by
    intro none_
    have := congrArg List.length none_
    rw [List.length_drop, List.length_nil] at this
    omega
  obtain ⟨b, bs, back⟩ := List.exists_cons_of_ne_nil behind
  have parts : (singly head).map some ++ rest =
      (singly (head.take (headLimit + 1))).map some ++ (some [b] :: ((singly bs).map some ++ rest)) := by
    conv => lhs; rw [split, back]
    simp [singly]
  have upto : readHead [] ((singly (head.take (headLimit + 1))).map some ++ (some [b] :: ((singly bs).map some ++ rest))) =
      readHead (head.take (headLimit + 1)) (some [b] :: ((singly bs).map some ++ rest)) :=
    (readHead_singly is (show [] ++ head.take (headLimit + 1) ++ head.drop (headLimit + 1) = head ++ [] by simp)
      (by rw [List.nil_append]; omega) (by rw [List.nil_append]; omega)).1
  have unended : ¬ endsHead (head.take (headLimit + 1)) = true := fun ended => by
    have whole : head.take (headLimit + 1) ++ head.drop (headLimit + 1) = head ++ [] := by rw [← split, List.append_nil]
    have := (endsHead_iff is whole).mp ended
    omega
  rw [parts, upto, readHead_full unended (by omega)]

/-! ## The host -/

theorem takeWhile_stop {α : Type} {p : α → Bool} {c : α} {as bs : List α} (stops : p c = false) :
    (as ++ c :: bs).takeWhile p = as.takeWhile p := by
  induction as with
  | nil => rw [List.nil_append, List.takeWhile_cons, stops]; rfl
  | cons a as ih =>
    rw [List.cons_append, List.takeWhile_cons, List.takeWhile_cons, ih]

/-- What is behind the head is no part of its lines. -/
theorem headLines_behind (p y : String) : headLines (p ++ "\r\n\r\n" ++ y) = headLines (p ++ "\r\n\r\n") := by
  have chars (z : String) : (p ++ "\r\n\r\n" ++ z).toList = p.toList ++ '\r' :: '\n' :: ([] ++ '\r' :: '\n' :: z.toList) := by
    simp
  have lines (z : String) : headLines (p ++ "\r\n\r\n" ++ z) =
      (((crlfLines p.toList).drop 1).takeWhile (· ≠ [])).map String.ofList := by
    obtain ⟨l, ls, some_⟩ := List.exists_cons_of_ne_nil (crlfLines_some p.toList)
    rw [headLines, chars, crlfLines_append, crlfLines_append, crlfLines, some_, List.cons_append, List.drop_succ_cons,
      List.drop_succ_cons, List.drop_zero, List.drop_zero, List.cons_append, takeWhile_stop (by decide)]
  have none_ := lines ""
  rw [String.append_empty] at none_
  rw [lines, none_]

/-- The text of a head ends with an empty line. -/
theorem text_of_head {t : String} (is : IsHead head) (text : fromUtf8 head = some t) : ∃ p, t = p ++ "\r\n\r\n" := by
  obtain ⟨front, rfl, -⟩ := is
  have bytes := Wire.fromUtf8_iff.mp text
  rw [Wire.utf8_eq] at bytes
  obtain ⟨ds, c, es, split, -, alone, back⟩ := Wire.chars_split (by decide : (0x0D : UInt8).toNat < 128) bytes.symm
  have cr : c = '\r' := Char.toNat_inj.mp (Wire.mem_utf8EncodeChar (alone ▸ List.mem_singleton_self _) (by decide))
  have tail : String.ofList es = "\n\r\n" := by
    have spelled : fromUtf8 [0x0A, 0x0D, 0x0A] = some (String.ofList es) := by
      rw [Wire.fromUtf8_iff, Wire.utf8_eq, String.toList_ofList, back]
    have known : fromUtf8 [0x0A, 0x0D, 0x0A] = some "\n\r\n" := Wire.fromUtf8_utf8 "\n\r\n"
    rw [spelled] at known
    exact Option.some.inj known
  have chars : es = ['\n', '\r', '\n'] := by rw [← String.toList_ofList (l := es), tail]; rfl
  refine ⟨String.ofList ds, ?_⟩
  rw [← String.toList_inj, split, cr, chars]
  simp

def notText : String := "the request head is not valid text"

/-- Behind a head that is a text, the rest has to be a text, and then does not matter. -/
theorem hostOf_behind {t : String} (is : IsHead head) (text : fromUtf8 head = some t) (x : Bytes) :
    hostOf (head ++ x) = if (fromUtf8 x).isSome then hostOf head else .error notText := by
  obtain ⟨p, rfl⟩ := text_of_head is text
  obtain rfl := Wire.fromUtf8_iff.mp text
  cases behind : fromUtf8 x with
  | none =>
    rw [hostOf, Wire.fromUtf8_append, behind]
    rfl
  | some y =>
    rw [hostOf, Wire.fromUtf8_append, behind, hostOf, Wire.fromUtf8_utf8]
    dsimp only [Option.map_some]
    rw [headLines_behind]
    rfl

theorem hostOf_none (none_ : fromUtf8 head = none) : hostOf head = .error notText := by
  rw [hostOf, none_]
  rfl

theorem hostLine_error {found : Option String} {l why : String} (fails : hostLine found l = .error why) : why ≠ notText := by
  rw [hostLine] at fails
  split at fails
  next => cases fails
  next =>
    split at fails
    next =>
      split at fails
      next => cases fails; decide
      next => cases fails
    next =>
      split at fails
      next => cases fails; decide
      next => cases fails

theorem hostLines_error {found : Option String} {ls : List String} {why : String}
    (fails : ls.foldlM hostLine found = .error why) : why ≠ notText := by
  induction ls generalizing found with
  | nil => cases fails
  | cons l ls ih =>
    rw [List.foldlM_cons] at fails
    cases first : hostLine found l with
    | error e =>
      rw [first] at fails
      cases fails
      exact hostLine_error first
    | ok found' =>
      rw [first] at fails
      exact ih fails

/-- A head that is a text is not refused for being none. -/
theorem hostOf_error {t why : String} (text : fromUtf8 head = some t) (fails : hostOf head = .error why) : why ≠ notText := by
  rw [hostOf, text] at fails
  dsimp only at fails
  cases read : (headLines t).foldlM hostLine none with
  | error e =>
    rw [read] at fails
    cases fails
    exact hostLines_error read
  | ok found =>
    rw [read] at fails
    cases found with
    | none => cases fails; decide
    | some host => cases fails

/-! ## The decision -/

variable {own port : UInt16} {table again : RouteTable} {connects reconnects : UInt16 → Bool} {head' : Bytes} {host why : String}

theorem attempt_decision {refused refused' : UInt16 → Answer} {r : Option Route}
    (same : ∀ p, (refused p).decision = (refused' p).decision) :
    (attempt own connects head refused r).decision = (attempt own connects head' refused' r).decision := by
  rcases r with _ | (⟨app, p⟩ | app | apps)
  · rfl
  · rw [attempt, attempt]
    split
    · rfl
    · split
      · rfl
      · exact same p
  · rfl
  · rfl

/-- What is answered when a head was read and its host is known. -/
def answered (own : UInt16) (table again : RouteTable) (connects reconnects : UInt16 → Bool) (read : Bytes) :
    Except String String → Answer
  | .error why => .respond "400 Bad Request" why
  | .ok host =>
    attempt own connects read (fun tried =>
      if Route.isServingAt tried (again.resolve host) then notResponding
      else attempt own reconnects read (fun _ => notResponding) (again.resolve host)) (table.resolve host)

theorem serve_read {read : Bytes} (whole : readHead [] rest = some read) :
    serve own table again connects reconnects rest = answered own table again connects reconnects read (hostOf read) := by
  rw [serve, whole]
  dsimp only
  cases hostOf read <;> rfl

theorem answered_decision (found : Except String String) :
    (answered own table again connects reconnects head found).decision =
      (answered own table again connects reconnects head' found).decision := by
  cases found with
  | error why => rfl
  | ok host =>
    refine attempt_decision fun p => ?_
    split
    · rfl
    · exact attempt_decision fun _ => rfl

/-- An answer that is given for the route. -/
def Routed (a : Answer) : Prop := a ≠ .dropped ∧ ∀ why, a ≠ .respond "400 Bad Request" why

theorem notResponding_routed : Routed notResponding :=
  ⟨Answer.noConfusion, fun why same => absurd (Answer.respond.inj same).1 (by decide)⟩

theorem attempt_routed {refused : UInt16 → Answer} {r : Option Route} (each : ∀ p, Routed (refused p)) :
    Routed (attempt own connects head refused r) := by
  have other {status message : String} (apart : status ≠ "400 Bad Request") : Routed (.respond status message) :=
    ⟨Answer.noConfusion, fun why same => apart (Answer.respond.inj same).1⟩
  rcases r with _ | (⟨app, p⟩ | app | apps)
  · exact other (by decide)
  · rw [attempt]
    split
    · exact other (by decide)
    · split
      · exact ⟨Answer.noConfusion, fun _ => Answer.noConfusion⟩
      · exact each p
  · exact other (by decide)
  · exact other (by decide)

theorem answered_ok : Routed (answered own table again connects reconnects head (.ok host)) := by
  refine attempt_routed fun p => ?_
  split
  · exact notResponding_routed
  · exact attempt_routed fun _ => notResponding_routed

theorem decision_dropped {a : Answer} (some_ : a ≠ .dropped) : a.decision ≠ .dropped := by
  cases a with
  | dropped => exact absurd rfl some_
  | respond | forward => exact Answer.noConfusion

theorem answered_some (found : Except String String) :
    (answered own table again connects reconnects head found).decision ≠ .dropped := by
  refine decision_dropped ?_
  cases found with
  | error why => exact Answer.noConfusion
  | ok host => exact answered_ok.1

/-- No head that is a text gets the answer of one that is none. -/
theorem answered_text {t : String} (text : fromUtf8 head = some t) :
    (answered own table again connects reconnects head (hostOf head)).decision ≠ .respond "400 Bad Request" notText := by
  cases found : hostOf head with
  | error why => exact fun same => hostOf_error text found (Answer.respond.inj same).2
  | ok host =>
    have routed : Routed (answered own table again connects reconnects head (.ok host)) := answered_ok
    intro same
    cases given : answered own table again connects reconnects head (.ok host) with
    | dropped => rw [given] at same; cases same
    | respond status message => rw [given] at same routed; exact routed.2 _ same
    | forward => rw [given] at same; cases same

theorem answered_forward {read : Bytes} {found : Except String String}
    (forwards : answered own table again connects reconnects head found = .forward port read) : read = head := by
  cases found with
  | error why => cases forwards
  | ok host =>
    rcases attempt_forward forwards with ⟨-, same⟩ | ⟨tried, forwards⟩
    · exact same
    · split at forwards
      · cases forwards
      · rcases attempt_forward forwards with ⟨-, same⟩ | ⟨-, absurd_⟩
        · exact same
        · cases absurd_

/-- What comes with a steady head does not change what is decided. -/
theorem hostOf_steady {x y : Bytes} (is : IsHead head) (steady : fromUtf8 head = none ∨ ∀ b ∈ (x ++ y).take 2047, b.toNat < 128)
    (fits : x.length < 2048) : hostOf (head ++ x) = hostOf head := by
  cases text : fromUtf8 head with
  | none =>
    obtain ⟨front, rfl, -⟩ := is
    have split : front ++ headMark = front ++ [0x0D, 0x0A, 0x0D] ++ [0x0A] := by rw [List.append_assoc]; rfl
    rw [split] at text ⊢
    rw [hostOf_none (Wire.fromUtf8_none (by decide) text x), hostOf_none text]
  | some t =>
    have ascii : ∀ b ∈ x, b.toNat < 128 := by
      rcases steady with none_ | steady
      · cases none_.symm.trans text
      · rw [List.take_append, List.take_of_length_le (by omega)] at steady
        exact fun b mem => steady b (List.mem_append_left _ mem)
    obtain ⟨y, behind⟩ := Wire.fromUtf8_ascii ascii
    rw [hostOf_behind is text, behind]
    rfl

theorem serve_none (none_ : readHead [] rest = none) : serve own table again connects reconnects rest = .dropped := by
  rw [serve, none_]

theorem IsHead.positive (is : IsHead head) : 0 < head.length := by
  obtain ⟨front, rfl, -⟩ := is
  rw [List.length_append]
  exact Nat.lt_of_lt_of_le (by decide : 0 < headMark.length) (Nat.le_add_left ..)

/-- The head alone is read as it is. -/
theorem readHead_alone (is : IsHead head) (cut : Segmented 2048 reads head) :
    readHead [] (reads.map some) = none ∧ headLimit + 1 < head.length ∨
      head.length ≤ headLimit + 2048 ∧ readHead [] (reads.map some) = some head := by
  have whole : [] ++ head = head ++ [] := (List.append_nil head).symm
  rcases readHead_cut is cut whole is.positive with refused | ⟨x, y, none_, -, fits, read, -⟩
  · exact .inl refused
  · obtain ⟨rfl, -⟩ := List.append_eq_nil_iff.mp none_.symm
    rw [List.append_nil] at read
    exact .inr ⟨fits, read⟩

theorem decided_of_steady (is : IsHead head) (steady : Steady head body) : Decided own table again connects reconnects head body := by
  intro reads reads' cut cut'
  rcases steady with long | ⟨short, steady⟩
  · have refused : readHead [] (reads.map some) = none := by
      rcases readHead_cut is cut (List.nil_append _) is.positive with ⟨none_, -⟩ | ⟨_, _, -, -, fits, -⟩
      · exact none_
      · omega
    have refused' : readHead [] (reads'.map some) = none := by
      rcases readHead_alone is cut' with ⟨none_, -⟩ | ⟨fits, -⟩
      · exact none_
      · omega
    rw [serve_none refused, serve_none refused']
    exact ⟨rfl, fun port read forwards => by cases forwards⟩
  · obtain ⟨x, y, rfl, fits, -, read, left⟩ : ∃ x y, body = x ++ y ∧ x.length < 2048 ∧ head.length ≤ headLimit + 2048 ∧
        readHead [] (reads.map some) = some (head ++ x) ∧ copied (unread [] (reads.map some)) = y := by
      rcases readHead_cut is cut (List.nil_append _) is.positive with ⟨-, long⟩ | read
      · omega
      · exact read
    have read' : readHead [] (reads'.map some) = some head := by
      rcases readHead_alone is cut' with ⟨-, long⟩ | ⟨-, read⟩
      · omega
      · exact read
    rw [serve_read read, serve_read read', hostOf_steady is steady fits]
    refine ⟨answered_decision _, fun port front forwards => ?_⟩
    rw [answered_forward forwards, received, left, List.append_assoc]

/-- Between the limits the head is refused or taken. -/
theorem decided_short (is : IsHead head) (fits : head.length ≤ headLimit + 2048)
    (decided : Decided own table again connects reconnects head body) : head.length ≤ headLimit + 1 := by
  refine Nat.le_of_not_lt fun long => ?_
  have back : (head.drop headLimit).length = head.length - headLimit := List.length_drop
  have some_ : head.drop headLimit ≠ [] := List.length_pos_iff.mp (by omega)
  have parts : head.take headLimit ++ head.drop headLimit = head := List.take_append_drop ..
  have cut : Segmented 2048 (singly (head.take headLimit) ++ ([head.drop headLimit] ++ singly body)) (head ++ body) := by
    conv => rhs; rw [← parts, List.append_assoc]
    exact (Wire.singly_segmented (by decide) _).append
      ((Segmented.one some_ (by omega)).append (Wire.singly_segmented (by decide) _))
  have read : readHead [] ((singly (head.take headLimit) ++ ([head.drop headLimit] ++ singly body)).map some) = some head := by
    have lucky : readHead [] ((singly (head.take headLimit)).map some ++ some (head.drop headLimit ++ []) :: (singly body).map some) =
        some (head.take headLimit ++ head.drop headLimit ++ []) :=
      readHead_lucky (by rw [parts]; exact is) some_ (List.length_take_le ..)
    rw [List.append_nil, List.append_nil, parts] at lucky
    rw [List.map_append]
    exact lucky
  have refused : readHead [] ((singly head).map some) = none := by
    have none_ : readHead [] ((singly head).map some ++ []) = none := readHead_long is long
    rw [List.append_nil] at none_
    exact none_
  have same := (decided _ _ cut (Wire.singly_segmented (by decide) head)).1
  rw [serve_read read, serve_none refused] at same
  exact answered_some _ same

theorem first_high {bs : Bytes} (some_ : ¬ ∀ b ∈ bs, b.toNat < 128) :
    ∃ p b q, bs = p ++ b :: q ∧ (∀ d ∈ p, d.toNat < 128) ∧ 128 ≤ b.toNat := by
  induction bs with
  | nil => exact absurd (fun b mem => absurd mem List.not_mem_nil) some_
  | cons b bs ih =>
    by_cases low : b.toNat < 128
    · obtain ⟨p, d, q, rfl, ascii, high⟩ := ih fun all => some_ (List.forall_mem_cons.mpr ⟨low, all⟩)
      exact ⟨b :: p, d, q, rfl, List.forall_mem_cons.mpr ⟨low, ascii⟩, high⟩
    · exact ⟨[], b, bs, rfl, fun d mem => absurd mem List.not_mem_nil, Nat.le_of_not_lt low⟩

/-- Behind a head that is a text, what can come with its end is ASCII. -/
theorem decided_ascii {t : String} (is : IsHead head) (short : head.length ≤ headLimit + 1) (text : fromUtf8 head = some t)
    (decided : Decided own table again connects reconnects head body) : ∀ b ∈ body.take 2047, b.toNat < 128 := by
  refine Decidable.byContradiction fun some_ => ?_
  obtain ⟨p, b, q, front, ascii, high⟩ := first_high some_
  have parts : head.dropLast ++ [head.getLast (List.length_pos_iff.mp is.positive)] = head := List.dropLast_concat_getLast _
  generalize head.getLast (List.length_pos_iff.mp is.positive) = last at parts
  have room : head.dropLast.length ≤ headLimit := by
    rw [List.length_dropLast]
    omega
  have body_ : body = p ++ [b] ++ (q ++ body.drop 2047) := by
    conv => lhs; rw [← List.take_append_drop 2047 body, front]
    simp
  have size : (p ++ [b]).length ≤ 2047 := by
    have := congrArg List.length front
    simp only [List.length_take, List.length_append, List.length_cons, List.length_nil] at this ⊢
    omega
  have cut : Segmented 2048 (singly head.dropLast ++ ([[last] ++ (p ++ [b])] ++ singly (q ++ body.drop 2047))) (head ++ body) := by
    have bytes : head ++ body = head.dropLast ++ (([last] ++ (p ++ [b])) ++ (q ++ body.drop 2047)) := by
      conv => lhs; rw [body_, ← parts]
      simp
    rw [bytes]
    refine (Wire.singly_segmented (by decide) _).append ((Segmented.one (List.cons_ne_nil _ _) ?_).append
      (Wire.singly_segmented (by decide) _))
    exact Nat.succ_le_succ size
  have read : readHead [] ((singly head.dropLast ++ ([[last] ++ (p ++ [b])] ++ singly (q ++ body.drop 2047))).map some) =
      some (head ++ (p ++ [b])) := by
    have lucky : readHead [] ((singly head.dropLast).map some ++ some ([last] ++ (p ++ [b])) :: (singly (q ++ body.drop 2047)).map some) =
        some (head.dropLast ++ [last] ++ (p ++ [b])) :=
      readHead_lucky (by rw [parts]; exact is) (List.cons_ne_nil _ _) room
    rw [parts] at lucky
    rw [List.map_append]
    exact lucky
  have alone : readHead [] ((singly head).map some) = some head := by
    rcases readHead_alone is (Wire.singly_segmented (by decide) head) with ⟨-, long⟩ | ⟨-, read⟩
    · omega
    · exact read
  have host : hostOf (head ++ (p ++ [b])) = .error notText := by
    rw [hostOf_behind is text, Wire.fromUtf8_cut ascii high]
    rfl
  have same := (decided _ _ cut (Wire.singly_segmented (by decide) head)).1
  rw [serve_read read, serve_read alone, host] at same
  exact answered_text text same.symm

/-- However it arrives, a request is decided on as its head alone exactly when it is steady. -/
theorem decided_iff (own : UInt16) (table again : RouteTable) (connects reconnects : UInt16 → Bool) {head : Bytes} (is : IsHead head)
    (body : Bytes) : Decided own table again connects reconnects head body ↔ Steady head body := by
  refine ⟨fun decided => ?_, decided_of_steady is⟩
  by_cases long : headLimit + 2048 < head.length
  · exact .inl long
  · right
    have short := decided_short is (Nat.le_of_not_lt long) decided
    refine ⟨short, ?_⟩
    cases text : fromUtf8 head with
    | none => exact .inl rfl
    | some t => exact .inr (decided_ascii is short text decided)

end

/-! ## A body in bytes -/

def postHead : Bytes := utf8 "POST / HTTP/1.1\r\nHost: 0000000000.harpoon.localhost\r\nContent-Length: 1\r\n\r\n"

def postFront : Bytes := utf8 "POST / HTTP/1.1\r\nHost: 0000000000.harpoon.localhost\r\nContent-Length: 1"

set_option maxRecDepth 4096 in
theorem postHead_head : IsHead postHead := ⟨postFront, by decide, by decide⟩

set_option maxRecDepth 4096 in
/-- A letter behind a head is steady, and the byte 255 is not. -/
theorem decided_iff_post :
    Decided 7480 oneApp oneApp (fun _ => true) (fun _ => true) postHead [97] ∧
      ¬ Decided 7480 oneApp oneApp (fun _ => true) (fun _ => true) postHead [255] := by
  refine ⟨(decided_iff _ _ _ _ _ postHead_head _).mpr (.inr ⟨by decide, .inr (by decide)⟩), fun decided => ?_⟩
  rcases (decided_iff _ _ _ _ _ postHead_head _).mp decided with long | ⟨-, none_ | ascii⟩
  · exact absurd long (by decide)
  · rw [postHead, Wire.fromUtf8_utf8] at none_
    cases none_
  · exact absurd ascii (by decide)

set_option maxRecDepth 4096 in
/-- A byte behind the head makes the head no text, if it comes with the end of it. -/
theorem post_undecided : ¬ ∀ own table again connects reconnects head body, IsHead head →
    Decided own table again connects reconnects head body := by
  intro each
  have text : fromUtf8 postHead = some "POST / HTTP/1.1\r\nHost: 0000000000.harpoon.localhost\r\nContent-Length: 1\r\n\r\n" :=
    Wire.fromUtf8_utf8 _
  have ascii := decided_ascii postHead_head (by decide) text
    (each 7480 oneApp oneApp (fun _ => true) (fun _ => true) postHead [255] postHead_head)
  exact absurd ascii (by decide)

end Harpoon.Desktop
