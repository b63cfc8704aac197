import Harpoon.Laws.Redactor

/-!
# What a log keeps

The lines of a log hold the redacted text in order, without its line breaks. A line is kept whole or dropped whole. The
log counts the lines it saw and those it dropped, and what it keeps is within its two limits.
-/

namespace Harpoon.Deploy

theorem Text.size_eq (t : Text) : t.size = t.foldr (fun c bytes => c.utf8Size + bytes) 0 := by
  have from_ : ∀ (t : Text) bytes, t.foldl (fun bytes c => bytes + c.utf8Size) bytes =
      bytes + t.foldr (fun c bytes => c.utf8Size + bytes) 0 := by
    intro t
    induction t with
    | nil => exact fun _ => rfl
    | cons c t ih =>
      intro bytes
      rw [List.foldl_cons, ih, List.foldr_cons, Nat.add_assoc]
  rw [Text.size, from_, Nat.zero_add]

theorem Text.size_cons (c : Char) (t : Text) : Text.size (c :: t) = c.utf8Size + t.size := by
  rw [Text.size_eq, List.foldr_cons, ← Text.size_eq]

theorem Text.size_append (s t : Text) : Text.size (s ++ t) = s.size + t.size := by
  induction s with
  | nil => exact (Nat.zero_add _).symm
  | cons c s ih => rw [List.cons_append, Text.size_cons, ih, Text.size_cons, Nat.add_assoc]

/-- Every line with its line break. -/
def linesText (lines : List Text) : Text := lines.flatMap fun l => l ++ ['\n']

theorem linesText_append (xs ys : List Text) : linesText (xs ++ ys) = linesText xs ++ linesText ys := List.flatMap_append

theorem linesText_cons (x : Text) (xs : List Text) : (linesText (x :: xs)).size = x.size + 1 + (linesText xs).size := by
  have line : linesText (x :: xs) = x ++ ['\n'] ++ linesText xs := rfl
  rw [line, Text.size_append, Text.size_append]
  rfl

theorem linesText_singleton (x : Text) : (linesText [x]).size = x.size + 1 := linesText_cons x []

/-- Where lines were dropped the log says so. -/
def cutNote (s : LogSummary) : Text :=
  if s.truncated then s!"[… {s.linesDropped} lines ({s.bytesDropped} bytes) truncated by Harpoon …]\n".toList else []

def withheldNote (s : LogSummary) : Text := if s.withheld then withheldLine.toList ++ ['\n'] else []

/-- A capture stores a text: of its lines it has a head and a tail, and counts the rest. -/
def LogCapture.Stores (c : LogCapture) (text : Text) : Prop :=
  ∃ all head tail, all.flatten = text.filter (· ≠ '\n') ∧ List.Sublist (head ++ tail) all ∧
    all.length = (head ++ tail).length + c.summary.linesDropped ∧
    c.text = String.ofList (linesText head ++ cutNote c.summary ++ linesText tail)

/-- When no line was dropped, every character of the text but the line breaks is in the capture. -/
theorem LogCapture.Stores.shown {c : LogCapture} {text : Text} {ch : Char} (so : c.Stores text)
    (whole : c.summary.linesDropped = 0) (mem : ch ∈ text) (other : ch ≠ '\n') : ch ∈ c.text.toList := by
  obtain ⟨all, head, tail, flat, kept, count, written⟩ := so
  rw [whole, Nat.add_zero] at count
  have same : head ++ tail = all := kept.eq_of_length count.symm
  have inLines : ch ∈ all.flatten := by
    rw [flat]
    exact List.mem_filter.mpr ⟨mem, decide_eq_true other⟩
  obtain ⟨l, line, here⟩ := List.mem_flatten.mp inLines
  have inEnded : ∀ lines : List Text, l ∈ lines → ch ∈ linesText lines := fun lines member =>
    List.mem_flatMap.mpr ⟨l, member, List.mem_append_left _ here⟩
  rw [written, String.toList_ofList]
  rcases List.mem_append.mp (same.symm ▸ line) with inHead | inTail
  · exact List.mem_append_left _ (List.mem_append_left _ (inEnded head inHead))
  · exact List.mem_append_right _ (inEnded tail inTail)

namespace LogSink

variable {s : LogSink} {all lines : List Text} {t clean safe text out : Text} {limit bytes room n : Nat}
  {summary : LogSummary} {chunks : List String} {r : Redactor}

/-! ## Lines -/

theorem completeLines_spec (t : Text) :
    (completeLines t).1.flatten ++ (completeLines t).2 = t.filter (· ≠ '\n') ∧ '\n' ∉ (completeLines t).2 := by
  induction t with
  | nil => exact ⟨rfl, List.not_mem_nil⟩
  | cons c rest ih =>
    rw [completeLines]
    dsimp only
    split
    next break_ =>
      subst break_
      exact ⟨ih.1, ih.2⟩
    next other =>
      have keeps : (c :: rest).filter (· ≠ '\n') = c :: rest.filter (· ≠ '\n') :=
        List.filter_cons_of_pos (decide_eq_true other)
      rw [keeps, ← ih.1]
      split
      next none =>
        rw [none]
        exact ⟨rfl, fun mem => ih.2 (by simpa [Ne.symm other] using mem)⟩
      next l ls found =>
        rw [found]
        exact ⟨by simp, ih.2⟩

theorem splitAt_spec : (splitAt room t).1 ++ (splitAt room t).2 = t := by
  induction t generalizing room with
  | nil => rfl
  | cons c rest ih =>
    rw [splitAt]
    split
    · exact congrArg (c :: ·) ih
    · rfl

theorem splitLong_spec : (splitLong n t).1.flatten ++ (splitLong n t).2 = t := by
  induction n generalizing t with
  | zero => rfl
  | succ n ih =>
    rw [splitLong]
    split
    · dsimp only
      rw [List.flatten_cons, List.append_assoc, ih, splitAt_spec]
    · rfl

/-! ## Storing -/

/-- The head and the tail are of these lines, in their order and within the limits, and the rest is counted. -/
structure Keeps (s : LogSink) (all : List Text) : Prop where
  kept : List.Sublist (s.head ++ s.tail) all
  seen : s.summary.linesSeen = all.length
  count : all.length = (s.head ++ s.tail).length + s.summary.linesDropped
  bytes : (linesText all).size = s.headBytes + s.tailBytes + s.summary.bytesDropped
  headBytes : s.headBytes = (linesText s.head).size
  tailBytes : s.tailBytes = (linesText s.tail).size
  headRoom : s.headBytes ≤ s.limits.headBytes
  tailRoom : s.tailBytes ≤ s.limits.tailBytes

/-- What was dropped from the front of the tail, and what it counts as. -/
theorem dropFront_spec (so : bytes = (linesText lines).size) : ∃ dropped,
    lines = dropped ++ (dropFront limit lines bytes summary).1 ∧
    (dropFront limit lines bytes summary).2.1 = (linesText (dropFront limit lines bytes summary).1).size ∧
    (dropFront limit lines bytes summary).2.1 ≤ limit ∧
    (dropFront limit lines bytes summary).2.2 = { summary with
      linesDropped := summary.linesDropped + dropped.length
      bytesDropped := summary.bytesDropped + (linesText dropped).size } := by
  induction lines generalizing bytes summary with
  | nil => exact ⟨[], rfl, so, so ▸ Nat.zero_le limit, rfl⟩
  | cons l rest ih =>
    rw [dropFront]
    split
    · dsimp only
      rw [linesText_cons] at so
      obtain ⟨dropped, parts, size, room, counted⟩ := @ih (bytes - (Text.size l + 1))
        { summary with
          linesDropped := summary.linesDropped + 1
          bytesDropped := summary.bytesDropped + (Text.size l + 1) } (by omega)
      refine ⟨l :: dropped, congrArg (l :: ·) parts, size, room, ?_⟩
      rw [counted, linesText_cons, List.length_cons]
      simp only [LogSummary.mk.injEq, true_and, and_true]
      omega
    next fits => exact ⟨[], rfl, so, Nat.not_lt.mp fits, rfl⟩

theorem store_keeps (so : s.Keeps all) : (s.store clean).Keeps (all ++ [clean]) := by
  obtain ⟨kept, seen, count, total, headBytes, tailBytes, headRoom, tailRoom⟩ := so
  have one : (linesText (all ++ [clean])).size = (linesText all).size + (clean.size + 1) := by
    rw [linesText_append, Text.size_append, linesText_singleton]
  rw [store]
  dsimp only
  split
  next room =>
    have none : s.tail = [] := List.isEmpty_iff.mp room.2
    rw [none, List.append_nil] at kept count
    constructor <;> dsimp only
    · rw [none, List.append_nil]
      exact kept.append (List.Sublist.refl _)
    · rw [seen, List.length_append, List.length_singleton]
    · rw [none, List.append_nil, List.length_append, List.length_append, count]
      omega
    · rw [one, total]
      omega
    · rw [linesText_append, Text.size_append, linesText_singleton, headBytes]
    · exact tailBytes
    · exact room.1
    · exact tailRoom
  next full =>
    have whole : s.tailBytes + (clean.size + 1) = (linesText (s.tail ++ [clean])).size := by
      rw [linesText_append, Text.size_append, linesText_singleton, tailBytes]
    have spec := @dropFront_spec (s.tail ++ [clean]) s.limits.tailBytes (s.tailBytes + (clean.size + 1))
      { s.summary with linesSeen := s.summary.linesSeen + 1 } whole
    dsimp only at spec
    generalize dropFront s.limits.tailBytes (s.tail ++ [clean]) (s.tailBytes + (clean.size + 1)) _ = left at spec ⊢
    obtain ⟨dropped, parts, size, fits, counted⟩ := spec
    have lengths := congrArg List.length parts
    have sizes := congrArg (fun ls => (linesText ls).size) parts
    rw [List.length_append, List.length_append, List.length_singleton] at lengths
    simp only [linesText_append, Text.size_append, linesText_singleton] at sizes
    constructor <;> dsimp only
    · have longer : List.Sublist (s.head ++ (s.tail ++ [clean])) (all ++ [clean]) := by
        rw [← List.append_assoc]
        exact kept.append (List.Sublist.refl _)
      refine ((List.Sublist.refl s.head).append ?_).trans longer
      rw [parts]
      exact List.sublist_append_right _ _
    · rw [counted, List.length_append, List.length_singleton, ← seen]
    · rw [counted, List.length_append, List.length_append, List.length_singleton, count, List.length_append]
      dsimp only
      omega
    · rw [counted, one, total, size]
      dsimp only
      omega
    · exact headBytes
    · exact size
    · exact headRoom
    · exact fits

/-- Storing a line changes nothing of what is still to come. -/
theorem store_same : (s.store clean).redactor = s.redactor ∧ (s.store clean).line = s.line ∧
    (s.store clean).pending = s.pending ∧ (s.store clean).limits = s.limits ∧
    (s.store clean).summary.withheld = s.summary.withheld := by
  have held : ∀ (lines : List Text) bytes summary,
      (dropFront s.limits.tailBytes lines bytes summary).2.2.withheld = summary.withheld := by
    intro lines
    induction lines with
    | nil => exact fun _ _ => rfl
    | cons l rest ih =>
      intro bytes summary
      rw [dropFront]
      split
      · exact ih _ _
      · rfl
  rw [store]
  dsimp only
  split
  · exact ⟨rfl, rfl, rfl, rfl, rfl⟩
  · exact ⟨rfl, rfl, rfl, rfl, held _ _ _⟩

theorem foldl_store_keeps (so : s.Keeps all) : (lines.foldl store s).Keeps (all ++ lines) := by
  induction lines generalizing s all with
  | nil => rwa [List.append_nil]
  | cons l rest ih =>
    rw [List.append_cons]
    exact ih (store_keeps so)

theorem foldl_store_same : (lines.foldl store s).redactor = s.redactor ∧ (lines.foldl store s).line = s.line ∧
    (lines.foldl store s).pending = s.pending ∧ (lines.foldl store s).limits = s.limits ∧
    (lines.foldl store s).summary.withheld = s.summary.withheld := by
  induction lines generalizing s with
  | nil => exact ⟨rfl, rfl, rfl, rfl, rfl⟩
  | cons l rest ih =>
    obtain ⟨a, b, c, d, e⟩ := ih (s := s.store l)
    obtain ⟨a', b', c', d', e'⟩ := @store_same s l
    exact ⟨a.trans a', b.trans b', c.trans c', d.trans d', e.trans e'⟩

/-- The line that is assembled, what the redactor holds back and how often it masked are no matter of the lines. -/
theorem Keeps.marked (so : s.Keeps all) (pending line : Text) (n : Nat) :
    Keeps { s with pending := pending, line := line, summary := { s.summary with redactions := n } } all :=
  ⟨so.kept, so.seen, so.count, so.bytes, so.headBytes, so.tailBytes, so.headRoom, so.tailRoom⟩

theorem Keeps.withheld (so : s.Keeps all) : s.withhold.Keeps all :=
  ⟨so.kept, so.seen, so.count, so.bytes, so.headBytes, so.tailBytes, so.headRoom, so.tailRoom⟩

/-- The sink works, and what it was given is in its lines and in the line that it assembles. -/
structure Holds (s : LogSink) (r : Redactor) (text : Text) : Prop where
  redactor : s.redactor = r
  works : s.summary.withheld = false
  lines : ∃ all, s.Keeps all ∧ all.flatten ++ s.line = text.filter (· ≠ '\n')
  plain : '\n' ∉ s.line

theorem filter_plain (plain : '\n' ∉ t) : t.filter (· ≠ '\n') = t :=
  List.filter_eq_self.mpr fun _ mem => decide_eq_true fun break_ => plain (break_ ▸ mem)

theorem absorb_holds (so : s.Holds r text) : (s.absorb safe).Holds r (text ++ safe) ∧
    (s.absorb safe).pending = s.pending := by
  obtain ⟨redactor, works, ⟨all, keeps, held⟩, plain⟩ := so
  obtain ⟨whole, free⟩ := completeLines_spec (s.line ++ safe)
  have cut := @splitLong_spec (completeLines (s.line ++ safe)).2 (completeLines (s.line ++ safe)).2.length
  rw [absorb]
  dsimp only
  generalize completeLines (s.line ++ safe) = parts at whole free cut ⊢
  generalize splitLong parts.2.length parts.2 = pieces at cut ⊢
  have same := @foldl_store_same s (parts.1 ++ pieces.1)
  have kept : ((parts.1 ++ pieces.1).foldl store s).Keeps _ := foldl_store_keeps keeps
  refine ⟨⟨same.1.trans redactor, same.2.2.2.2.trans works, ⟨_, kept.marked _ _ _, ?_⟩, ?_⟩, same.2.2.1⟩
  · dsimp only
    rw [List.flatten_append, List.flatten_append, List.append_assoc, List.append_assoc, cut, whole, List.filter_append,
      List.filter_append, ← held, filter_plain plain, List.append_assoc]
  · intro mem
    refine free ?_
    rw [← cut]
    exact List.mem_append_right _ mem

/-- What the redactor holds back and how often it masked is no matter of the lines. -/
theorem Holds.scanned (so : s.Holds r text) (held : Text) :
    Holds { s with pending := held, summary := { s.summary with redactions := s.summary.redactions + n } } r text := by
  obtain ⟨all, keeps, lines⟩ := so.lines
  exact ⟨so.redactor, so.works, ⟨all, keeps.marked _ _ _, lines⟩, so.plain⟩

/-- The sink after the redactor answered, and after it took in what it was answered. -/
theorem scanned_holds (so : s.Holds r text) (held out : Text) (n : Nat) :
    let next := { s with
      pending := held
      summary := { s.summary with redactions := s.summary.redactions + n } }.absorb out
    next.Holds r (text ++ out) ∧ next.pending = held :=
  absorb_holds (so.scanned held)

theorem pushChunk_holds {chunk : String} {held : Text} (so : s.Holds r text)
    (step : r.scan s.pending chunk.toList false = .ok ((out, n), held)) :
    (s.pushChunk chunk).Holds r (text ++ out) ∧ (s.pushChunk chunk).pending = held := by
  obtain rfl := so.redactor
  rw [pushChunk, so.works, if_neg Bool.false_ne_true, step]
  exact scanned_holds so held out n

/-- Flushed, the sink has stored all that it was given and all that the redactor still makes of what is held back. -/
theorem flush_keeps (so : s.Holds r text) (flushed : r.scan s.pending [] true = .ok ((out, n), [])) :
    s.flush.summary.withheld = false ∧
      ∃ all, s.flush.Keeps all ∧ all.flatten = (text ++ out).filter (· ≠ '\n') := by
  obtain rfl := so.redactor
  have absorbed := (scanned_holds so [] out n).1
  rw [LogSink.flush, so.works, if_neg Bool.false_ne_true, flushed]
  dsimp only
  generalize absorb _ out = view at absorbed ⊢
  obtain ⟨all, keeps, lines⟩ := absorbed.lines
  split
  next empty =>
    rw [List.isEmpty_iff.mp empty, List.append_nil] at lines
    exact ⟨absorbed.works, all, keeps, lines⟩
  next rest =>
    refine ⟨?_, all ++ [view.line], ?_, ?_⟩
    · exact store_same.2.2.2.2.trans absorbed.works
    · exact store_keeps (keeps.marked _ _ _)
    · rw [List.flatten_append, List.flatten_singleton, lines]

/-- A sink that is fed chunks stores what the redactor makes of them. -/
theorem chunks_kept (so : s.Holds r text) (works : r.fail = false)
    (emitted : r.stream s.pending (chunks.map String.toList) = .ok (out, n)) :
    (chunks.foldl pushChunk s).flush.summary.withheld = false ∧
      ∃ all, (chunks.foldl pushChunk s).flush.Keeps all ∧ all.flatten = (text ++ out).filter (· ≠ '\n') := by
  induction chunks generalizing s text out n with
  | nil =>
    rw [List.map_nil, Redactor.stream, Redactor.scan_finish works] at emitted
    cases emitted
    obtain rfl := so.redactor
    exact flush_keeps so (Redactor.scan_finish works)
  | cons chunk rest ih =>
    obtain rfl := so.redactor
    obtain ⟨x, y, _, step, _⟩ : ∃ x y, s.pending ++ chunk.toList = x ++ y ∧ _ ∧ _ := Redactor.scan_step works
    obtain ⟨holds, pending⟩ := pushChunk_holds so step
    rw [List.map_cons, Redactor.stream, step] at emitted
    change (s.redactor.stream y (rest.map String.toList)).bind _ = _ at emitted
    rw [← pending, Redactor.stream_eq works] at emitted
    cases emitted
    have stored := ih holds (Redactor.stream_eq works)
    rwa [List.append_assoc] at stored

/-- The text of a capture: the lines that are kept, and what the log says of the others. -/
theorem capture_text : s.capture.text = String.ofList (linesText s.flush.head ++ cutNote s.capture.summary ++
    linesText s.flush.tail ++ withheldNote s.capture.summary) := rfl

theorem chunks_stored (so : s.Holds r text) (works : r.fail = false)
    (emitted : r.stream s.pending (chunks.map String.toList) = .ok (out, n)) :
    (chunks.foldl pushChunk s).capture.Stores (text ++ out) := by
  obtain ⟨shows, all, keeps, flat⟩ := chunks_kept so works emitted
  have none : withheldNote (chunks.foldl pushChunk s).capture.summary = [] := if_neg (by
    change ¬ (chunks.foldl pushChunk s).flush.summary.withheld = true
    rw [shows]
    exact Bool.false_ne_true)
  refine ⟨all, _, _, flat, keeps.kept, keeps.count, ?_⟩
  rw [capture_text, none, List.append_nil]

theorem new_keeps (limits : LogLimits) : (LogSink.new limits r).Keeps [] :=
  ⟨List.Sublist.refl _, rfl, rfl, rfl, rfl, rfl, Nat.zero_le _, Nat.zero_le _⟩

theorem new_holds (limits : LogLimits) : (LogSink.new limits r).Holds r [] :=
  ⟨rfl, rfl, ⟨[], new_keeps limits, rfl⟩, List.not_mem_nil⟩

/-! ## Counts and limits -/

theorem absorb_keeps (so : s.Keeps all) : ∃ more, (s.absorb safe).Keeps (all ++ more) ∧
    (s.absorb safe).limits = s.limits := by
  rw [absorb]
  dsimp only
  exact ⟨_, (foldl_store_keeps so).marked _ _ _, foldl_store_same.2.2.2.1⟩

theorem pushChunk_keeps {chunk : String} (so : s.Keeps all) : ∃ more, (s.pushChunk chunk).Keeps (all ++ more) ∧
    (s.pushChunk chunk).limits = s.limits := by
  rw [pushChunk]
  split
  · exact ⟨[], by rwa [List.append_nil], rfl⟩
  · split
    · exact absorb_keeps (so.marked _ _ _)
    · exact ⟨[], by rw [List.append_nil]; exact so.withheld, rfl⟩

/-- Whatever is pushed, the lines are kept and counted within the limits. -/
theorem foldl_pushChunk_keeps (so : s.Keeps all) : ∃ more, (chunks.foldl pushChunk s).Keeps (all ++ more) ∧
    (chunks.foldl pushChunk s).limits = s.limits := by
  induction chunks generalizing s all with
  | nil => exact ⟨[], by rwa [List.append_nil], rfl⟩
  | cons chunk rest ih =>
    obtain ⟨more, kept, same⟩ := pushChunk_keeps so
    obtain ⟨rest, whole, limits⟩ := ih kept
    exact ⟨more ++ rest, by rwa [← List.append_assoc], limits.trans same⟩

theorem flush_limits : s.flush.limits = s.limits := by
  have absorbed : ∀ (s : LogSink) safe, (s.absorb safe).limits = s.limits := fun s safe => by
    rw [absorb]
    exact foldl_store_same.2.2.2.1
  rw [LogSink.flush]
  split
  · rfl
  · split
    · dsimp only
      split
      · exact absorbed _ _
      · exact store_same.2.2.2.1.trans (absorbed _ _)
    · rfl

theorem scan_fails {finish : Bool} {pending chunk : Text} (fails : r.fail = true) :
    r.scan pending chunk finish = .error "forced failure" := by
  rw [Redactor.scan, if_pos fails]

/-- A sink whose redactor fails stores nothing more. -/
theorem fails_keeps (so : s.Keeps all) (fails : s.redactor.fail = true) :
    (chunks.foldl pushChunk s).flush.Keeps all := by
  induction chunks generalizing s with
  | nil =>
    rw [List.foldl_nil, LogSink.flush, scan_fails fails]
    split
    · exact so
    · exact so.withheld
  | cons chunk rest ih =>
    rw [List.foldl_cons, pushChunk, scan_fails fails]
    split
    · exact ih so fails
    · exact ih so.withheld fails

/-- The text that the redactor hands to the lines: all that it makes of the stream, or nothing when it fails. -/
def shownOf (r : Redactor) (chunks : List String) : Text :=
  match r.stream [] (chunks.map String.toList) with
  | .ok (out, _) => out
  | .error _ => []

theorem flush_shown (limits : LogLimits) (r : Redactor) (chunks : List String) :
    ∃ all, (chunks.foldl pushChunk (LogSink.new limits r)).flush.Keeps all ∧
      all.flatten = (shownOf r chunks).filter (· ≠ '\n') := by
  cases works : r.fail with
  | false =>
    have emitted := @Redactor.stream_eq r [] (chunks.map String.toList) works
    obtain ⟨_, all, keeps, flat⟩ := chunks_kept (new_holds limits) works emitted
    refine ⟨all, keeps, ?_⟩
    rw [shownOf, emitted]
    exact flat
  | true =>
    have fails : r.stream [] (chunks.map String.toList) = .error "forced failure" := by
      cases chunks with
      | nil => rw [List.map_nil, Redactor.stream, scan_fails works]; rfl
      | cons chunk rest => rw [List.map_cons, Redactor.stream, scan_fails works]; rfl
    refine ⟨[], fails_keeps (new_keeps limits) works, ?_⟩
    rw [shownOf, fails]
    rfl

/-- Of these lines the log keeps a head and a tail, within its limits and in their order. It counts all of them, and says
that it is truncated when one was dropped. -/
structure Accounts (limits : LogLimits) (all head tail : List Text) (summary : LogSummary) : Prop where
  order : List.Sublist (head ++ tail) all
  headRoom : (linesText head).size ≤ limits.headBytes
  tailRoom : (linesText tail).size ≤ limits.tailBytes
  seen : summary.linesSeen = all.length
  count : summary.linesSeen = head.length + tail.length + summary.linesDropped
  truncated : summary.truncated = true ↔ head ++ tail ≠ all

theorem Keeps.accounts (so : s.Keeps all) : Accounts s.limits all s.head s.tail s.summary := by
  have total := so.count
  rw [List.length_append] at total
  refine ⟨so.kept, so.headBytes ▸ so.headRoom, so.tailBytes ▸ so.tailRoom, so.seen, so.seen.trans total, ?_⟩
  rw [LogSummary.truncated, decide_eq_true_iff]
  constructor
  · intro dropped same
    rw [← same, List.length_append] at total
    omega
  · intro differs
    rcases Nat.eq_zero_or_pos s.summary.linesDropped with none | dropped
    · rw [none, Nat.add_zero, ← List.length_append] at total
      exact absurd (so.kept.eq_of_length total.symm) differs
    · exact dropped

/-- Whatever chunks are pushed, what the sink holds and what a capture of it holds is accounted for. The lines of the
capture are the redacted text. -/
theorem capture_accounts (limits : LogLimits) (r : Redactor) (chunks : List String) :
    let s := chunks.foldl pushChunk (LogSink.new limits r)
    (∃ stored, Accounts limits stored s.head s.tail s.summary) ∧
    ∃ all head tail, all.flatten = (shownOf r chunks).filter (· ≠ '\n') ∧
      s.capture.text = String.ofList (linesText head ++ cutNote s.capture.summary ++ linesText tail ++
        withheldNote s.capture.summary) ∧
      s.capture.summary.bytesKept = (linesText head).size + (linesText tail).size ∧
      Accounts limits all head tail s.capture.summary := by
  dsimp only
  obtain ⟨stored, keeps, same⟩ := @foldl_pushChunk_keeps _ _ chunks (@new_keeps r limits)
  obtain ⟨all, flushed, flat⟩ := flush_shown limits r chunks
  have running := keeps.accounts
  have final := flushed.accounts
  rw [same] at running
  rw [flush_limits, same] at final
  generalize chunks.foldl pushChunk (LogSink.new limits r) = s at *
  refine ⟨⟨_, running⟩, all, s.flush.head, s.flush.tail, flat, capture_text, ?_, ?_⟩
  · rw [← flushed.headBytes, ← flushed.tailBytes]
    rfl
  · exact ⟨final.order, final.headRoom, final.tailRoom, final.seen, final.count, final.truncated⟩

end LogSink

end Harpoon.Deploy
