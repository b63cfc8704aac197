import Harpoon.Docker.Output
import Harpoon.Laws.LogSink

/-!
# What a build stores of its output

The two pipes of a build share one decoder and one redactor. Where the output changes from one pipe to the other behind
a whole character, and no secret is cut there or made there, each pipe is decoded and redacted as if it came alone.
-/

namespace Harpoon.Docker

open Wire (Bytes decodeFrom lossy lossyEnd decodeFrom_append decodeFrom_settled lossy_append lossy_of_settled)
open Deploy (LogCapture LogLimits LogSink LogSummary Redactor Text)
open Deploy.Redactor (Closed Masks OfSecrets Piece closed_cons closed_nil masks_append merged merged_bounds new_knows pieces pieces_masks pieces_merged
  pieces_ofSecrets pieces_raw pieces_shown redacted redacted_append)

/-- The bytes of one pipe. -/
def bytesOf (p : Pipe) (chunks : List OutputChunk) : Bytes :=
  (chunks.filter fun c => c.pipe = p).flatMap (·.bytes)

/-- The bytes of both pipes, as they came. -/
def allBytes (chunks : List OutputChunk) : Bytes := chunks.flatMap (·.bytes)

/-- The pieces that are of one pipe. -/
def ofPipe (p : Pipe) (ps : List (Pipe × Piece)) : List Piece := (ps.filter fun q => q.1 = p).map (·.2)

/-- The text of a pipe in pieces: an occurrence of a value is inside one masked piece, and nothing else is masked. -/
structure Screens (secrets : List (Text × String)) (text : Text) (ps : List Piece) : Prop where
  whole : ps.flatMap Piece.raw = text
  masks : ∀ v ∈ secrets, v.1 ≠ [] → Masks ps v.1
  only : ∀ text names, .masked text names ∈ ps → OfSecrets secrets text

/-- The log stores the texts of the two pipes, each screened for itself. -/
def Faithful (given : List (String × String)) (chunks : List OutputChunk) (log : LogCapture) : Prop :=
  ∃ ps : List (Pipe × Piece), log.Stores (ps.flatMap (·.2.shown)) ∧ ∀ p,
    (ofPipe p ps).flatMap Piece.raw = lossy (bytesOf p chunks) ∧
    (∀ v ∈ given, v.2 ≠ "" → Masks (ofPipe p ps) v.2.toList) ∧
    ∀ text names, .masked text names ∈ ofPipe p ps → OfSecrets (Redactor.new given).secrets text

/-- Where the output leaves a pipe, a character of the pipe is whole, and no secret lies across, in the pipe or in what
came of both. -/
structure Apart (secrets : List (Text × String)) (before after : List OutputChunk) (p : Pipe) : Prop where
  settled : (decodeFrom [] (bytesOf p before)).2 = []
  own : Closed secrets (lossy (bytesOf p before)) (lossy (bytesOf p after))
  joint : Closed secrets (lossy (allBytes before)) (lossy (allBytes after))

/-- No change of the pipe cuts a character or a secret. -/
def Uncut (secrets : List (Text × String)) (chunks : List OutputChunk) : Prop :=
  ∀ before c d after, chunks = before ++ c :: d :: after → c.pipe ≠ d.pipe →
    Apart secrets (before ++ [c]) (d :: after) c.pipe

section

variable {secrets : List (Text × String)} {chunks first rest : List OutputChunk} {c d : OutputChunk} {p q : Pipe}
  {carry : Bytes} {ps qs : List (Pipe × Piece)} {xs ys : List Piece} {s t : Text}

/-! ## The texts -/

theorem bytesOf_append : bytesOf p (first ++ rest) = bytesOf p first ++ bytesOf p rest := by
  rw [bytesOf, List.filter_append, List.flatMap_append]
  rfl

theorem allBytes_append : allBytes (first ++ rest) = allBytes first ++ allBytes rest := List.flatMap_append

theorem bytesOf_own (own : ∀ c ∈ first, c.pipe = q) : bytesOf q first = allBytes first := by
  rw [bytesOf, List.filter_eq_self.mpr fun c mem => decide_eq_true (own c mem)]
  rfl

theorem bytesOf_other (own : ∀ c ∈ first, c.pipe = q) (other : p ≠ q) : bytesOf p first = [] := by
  rw [bytesOf, List.filter_eq_nil_iff.mpr]
  · rfl
  · intro c mem same
    exact other ((of_decide_eq_true same).symm.trans (own c mem))

theorem ofPipe_append : ofPipe p (ps ++ qs) = ofPipe p ps ++ ofPipe p qs := by
  rw [ofPipe, List.filter_append, List.map_append]
  rfl

theorem ofPipe_own : ofPipe q (xs.map fun x => (q, x)) = xs := by
  rw [ofPipe, List.filter_eq_self.mpr]
  · rw [List.map_map]
    exact List.map_id xs
  · intro x mem
    obtain ⟨y, _, rfl⟩ := List.mem_map.mp mem
    exact decide_eq_true rfl

theorem ofPipe_other (other : p ≠ q) : ofPipe p (xs.map fun x => (q, x)) = [] := by
  rw [ofPipe, List.filter_eq_nil_iff.mpr]
  · rfl
  · intro x mem same
    obtain ⟨y, _, rfl⟩ := List.mem_map.mp mem
    exact other (of_decide_eq_true same).symm

/-- The texts that are handed on, one behind the other, are what all the bytes decode to. -/
theorem outputTexts_flatten : ((outputTexts carry chunks).map String.toList).flatten =
    (decodeFrom carry (allBytes chunks)).1 ++ lossyEnd (decodeFrom carry (allBytes chunks)).2 := by
  induction chunks generalizing carry with
  | nil =>
    rw [outputTexts]
    split
    next none =>
      subst none
      rfl
    · rw [List.map_singleton, String.toList_ofList, List.flatten_singleton]
      rfl
  | cons c rest ih =>
    have parts : allBytes (c :: rest) = c.bytes ++ allBytes rest := rfl
    have chunk : decodeChunk carry c.bytes =
      (String.ofList (decodeFrom carry c.bytes).1, (decodeFrom carry c.bytes).2) := rfl
    rw [parts, decodeFrom_append, outputTexts, chunk]
    dsimp only
    split
    next none =>
      have text : (decodeFrom carry c.bytes).1 = [] := by
        rw [String.isEmpty_iff] at none
        rw [← String.toList_ofList (l := (decodeFrom carry c.bytes).1), none]
        rfl
      rw [ih, text, List.nil_append]
    · rw [List.map_cons, List.flatten_cons, ih, String.toList_ofList, List.append_assoc]

/-! ## Screens -/

theorem redacted_shown : (redacted secrets t).1 = (pieces t (merged secrets t) 0).flatMap Piece.shown :=
  pieces_shown fun _ mem => (merged_bounds mem).1

theorem screens_nil : Screens secrets [] [] :=
  ⟨rfl, fun v _ filled a b occurs => by
      have size := congrArg List.length occurs
      rw [List.flatMap_nil, List.length_append, List.length_append, List.length_nil] at size
      exact absurd (List.length_pos_iff.mpr filled) (by omega),
    fun _ _ mem => by cases mem⟩

/-- A text that is redacted for itself. -/
theorem screens_alone : Screens secrets t (pieces t (merged secrets t) 0) :=
  ⟨by rw [pieces_raw pieces_merged, List.drop_zero], fun _ known filled => pieces_masks known filled,
    fun _ _ mem => pieces_ofSecrets mem⟩

/-- Two texts that no secret joins. -/
theorem Screens.append (closed : Closed secrets s t) (first : Screens secrets s xs) (second : Screens secrets t ys) :
    Screens secrets (s ++ t) (xs ++ ys) := by
  refine ⟨by rw [List.flatMap_append, first.whole, second.whole], fun v known filled => ?_, fun text names mem => ?_⟩
  · rw [← first.whole, ← second.whole] at closed
    exact masks_append known closed (first.masks v known filled) (second.masks v known filled)
  · rcases List.mem_append.mp mem with mem | mem
    · exact first.only text names mem
    · exact second.only text names mem

/-! ## One pipe behind the other -/

/-- The output is of one pipe, or there is a first change of the pipe. -/
theorem first_change (c : OutputChunk) (rest : List OutputChunk) : (∀ e ∈ c :: rest, e.pipe = c.pipe) ∨
    ∃ first last d later, c :: rest = first ++ last :: d :: later ∧ (∀ e ∈ first ++ [last], e.pipe = c.pipe) ∧
      d.pipe ≠ c.pipe := by
  induction rest generalizing c with
  | nil =>
    refine .inl fun e mem => ?_
    rw [List.mem_singleton.mp mem]
  | cons d rest ih =>
    by_cases same : d.pipe = c.pipe
    · rcases ih d with all | ⟨first, last, e, later, parts, own, other⟩
      · refine .inl fun e mem => ?_
        rcases List.mem_cons.mp mem with rfl | mem
        · rfl
        · exact (all e mem).trans same
      · refine .inr ⟨c :: first, last, e, later, congrArg (c :: ·) parts, fun x mem => ?_, same ▸ other⟩
        rcases List.mem_cons.mp mem with rfl | mem
        · rfl
        · exact (own x mem).trans same
    · refine .inr ⟨[], c, d, rest, rfl, fun x mem => ?_, same⟩
      rw [List.mem_singleton.mp mem]

/-- Behind a part of one pipe that ends well, the rest of the output is uncut for itself. -/
theorem Uncut.behind (uncut : Uncut secrets (first ++ rest)) (own : ∀ e ∈ first, e.pipe = q)
    (settled : (decodeFrom [] (allBytes first)).2 = []) : Uncut secrets rest := by
  intro before c d after parts change
  have apart := uncut (first ++ before) c d after (by rw [parts, List.append_assoc]) change
  have ended : (decodeFrom [] (bytesOf c.pipe first)).2 = [] := by
    by_cases same : c.pipe = q
    · rw [same, bytesOf_own own, settled]
    · rw [bytesOf_other own same]
      rfl
  obtain ⟨whole, alone, joint⟩ := apart
  rw [List.append_assoc] at whole alone joint
  rw [bytesOf_append] at whole alone
  rw [allBytes_append] at joint
  rw [decodeFrom_settled ended] at whole
  rw [lossy_append ended] at alone
  rw [lossy_append settled] at joint
  exact ⟨whole, alone.suffix, joint.suffix⟩

/-- Uncut output is redacted as each of its pipes is for itself. -/
theorem uncut_screens (uncut : Uncut secrets chunks) : ∃ ps : List (Pipe × Piece),
    ps.flatMap (·.2.shown) = (redacted secrets (lossy (allBytes chunks))).1 ∧
    ∀ p, Screens secrets (lossy (bytesOf p chunks)) (ofPipe p ps) := by
  -- by the number of chunks: the part before the first change of the pipe is taken off
  generalize size : chunks.length = n
  induction n using Nat.strongRecOn generalizing chunks with
  | _ n ih =>
    cases chunks with
    | nil =>
      refine ⟨[], ?_, fun p => screens_nil⟩
      rw [redacted_shown]
      rfl
    | cons c rest =>
      have alone : ∀ {first : List OutputChunk}, (∀ e ∈ first, e.pipe = c.pipe) → ∃ ps : List (Pipe × Piece),
          ps.flatMap (·.2.shown) = (redacted secrets (lossy (allBytes first))).1 ∧
          ∀ p, Screens secrets (lossy (bytesOf p first)) (ofPipe p ps) := by
        intro first own
        refine ⟨(pieces (lossy (allBytes first)) (merged secrets (lossy (allBytes first))) 0).map fun x => (c.pipe, x),
          ?_, fun p => ?_⟩
        · rw [List.flatMap_map, redacted_shown]
        · by_cases same : p = c.pipe
          · rw [same, ofPipe_own, bytesOf_own own]
            exact screens_alone
          · rw [ofPipe_other same, bytesOf_other own same]
            exact screens_nil
      rcases first_change c rest with own | ⟨first, last, d, later, parts, own, other⟩
      · exact alone own
      · have change : last.pipe ≠ d.pipe := by
          rw [own last (List.mem_append_right first (List.mem_singleton_self last))]
          exact other.symm
        have apart := uncut first last d later parts change
        rw [own last (List.mem_append_right first (List.mem_singleton_self last))] at apart
        have whole : c :: rest = (first ++ [last]) ++ d :: later := by rw [parts, List.append_cons]
        have shorter : (d :: later).length < n := by
          rw [← size, parts, List.length_append]
          simp only [List.length_cons]
          omega
        rw [whole] at uncut ⊢
        generalize first ++ [last] = front at own apart uncut ⊢
        have settled := apart.settled
        rw [bytesOf_own own] at settled
        obtain ⟨ps, shown, screens⟩ := alone own
        obtain ⟨qs, shown', screens'⟩ := ih _ shorter (uncut.behind own settled) rfl
        refine ⟨ps ++ qs, ?_, fun p => ?_⟩
        · rw [List.flatMap_append, shown, shown', allBytes_append, lossy_append settled, redacted_append apart.joint]
        · rw [ofPipe_append, bytesOf_append]
          by_cases same : p = c.pipe
          · rw [same, lossy_append apart.settled]
            exact Screens.append apart.own (screens c.pipe) (screens' c.pipe)
          · have mine := screens p
            have none : bytesOf p front = [] := bytesOf_other own same
            have blank : lossy [] = [] := rfl
            rw [none, blank] at mine
            rw [none, List.nil_append]
            exact Screens.append (s := []) closed_nil mine (screens' p)

/-- When no change of the pipe cuts a character or a secret, the stored log is faithful to both pipes. -/
theorem buildLog_faithful (given : List (String × String)) (limits : LogLimits) (chunks : List OutputChunk)
    (uncut : Uncut (Redactor.new given).secrets chunks) :
    Faithful given chunks (buildLog limits (Redactor.new given) chunks) := by
  obtain ⟨ps, shown, screens⟩ := uncut_screens uncut
  refine ⟨ps, ?_, fun p => ⟨(screens p).whole, fun v mem filled => ?_, (screens p).only⟩⟩
  · have works : (Redactor.new given).fail = false := rfl
    have emitted := @Redactor.stream_eq _ [] ((outputTexts [] chunks).map String.toList) works
    rw [List.nil_append, outputTexts_flatten] at emitted
    have stored := LogSink.chunks_stored (LogSink.new_holds limits) works emitted
    rw [List.nil_append] at stored
    rw [shown]
    exact stored
  · obtain ⟨w, known, same⟩ := new_knows mem filled
    have text : w.1 ≠ [] := by
      rw [same]
      exact fun empty => filled (String.toList_eq_nil_iff.mp empty)
    rw [← same]
    exact (screens p).masks w known text

theorem new_one {name value : String} (filled : value ≠ "") :
    Redactor.new [(name, value)] = ⟨[(value.toList, name)], false⟩ := by
  have kept : [(name, value)].filter (fun s => s.2 ≠ "") = [(name, value)] :=
    List.filter_cons_of_pos (decide_eq_true filled)
  rw [Redactor.new, kept, List.map_singleton, List.mergeSort_singleton]
  rfl

/-- A value of one pipe that another pipe's output cuts is stored as it is. -/
theorem cut_value_stored : ¬ Faithful [("T", "ab")] [⟨.stdout, [97]⟩, ⟨.stderr, [120]⟩, ⟨.stdout, [98]⟩]
    (buildLog .default (Redactor.new [("T", "ab")]) [⟨.stdout, [97]⟩, ⟨.stderr, [120]⟩, ⟨.stdout, [98]⟩]) := by
  rintro ⟨ps, stored, screens⟩
  obtain ⟨raw, masks, _⟩ := screens .stdout
  have text : lossy (bytesOf .stdout [⟨.stdout, [97]⟩, ⟨.stderr, [120]⟩, ⟨.stdout, [98]⟩]) = "ab".toList := by decide
  rw [text] at raw
  obtain ⟨before, masked, names, after, l, r, parts, _⟩ :=
    masks ("T", "ab") (List.mem_singleton_self _) (by decide) [] [] raw
  have piece : .masked masked names ∈ ofPipe .stdout ps := by
    rw [parts]
    exact List.mem_append_right _ List.mem_cons_self
  obtain ⟨⟨p, x⟩, member, rfl⟩ := List.mem_map.mp piece
  have opened : '[' ∈ ps.flatMap (·.2.shown) :=
    List.mem_flatMap.mpr ⟨_, (List.mem_filter.mp member).1, Deploy.Redactor.marker_opens names⟩
  rw [new_one (by decide)] at stored
  exact absurd (stored.shown (by decide) opened (by decide)) (by decide)

/-- The two halves of a value in one pipe's chunks, and the other pipe behind them. -/
theorem whole_value_masked : Faithful [("T", "ab")] [⟨.stdout, [97]⟩, ⟨.stdout, [98]⟩, ⟨.stderr, [120]⟩]
    (buildLog .default (Redactor.new [("T", "ab")]) [⟨.stdout, [97]⟩, ⟨.stdout, [98]⟩, ⟨.stderr, [120]⟩]) := by
  refine buildLog_faithful _ _ _ fun before c d after parts change => ?_
  rw [new_one (by decide)]
  match before, parts with
  | [], parts =>
    cases parts
    exact absurd rfl change
  | [_], parts =>
    cases parts
    have closed : ∀ t, Closed [("ab".toList, "T")] ['a', 'b'] t := fun t =>
      closed_cons.mpr ⟨fun _ known _ => by simp [List.mem_singleton.mp known],
        closed_cons.mpr ⟨fun _ known begins => by simp [List.mem_singleton.mp known] at begins, closed_nil⟩⟩
    exact ⟨by decide, closed _, closed _⟩
  | _ :: _ :: before, parts =>
    have size := congrArg List.length parts
    simp only [List.length_cons, List.length_append, List.length_nil] at size
    omega

end

end Harpoon.Docker
