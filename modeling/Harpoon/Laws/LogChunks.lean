import Harpoon.Laws.LogSink

/-!
# A log and the chunks of its stream

A line that is still open is cut when it grows too long; a line that is complete is stored whole, however long it is.
So where the chunks of a stream end decides how a long line is stored. While no complete line is too long, the log
depends on the stream alone.
-/

namespace Harpoon.Deploy.LogSink

open Redactor (cutOf cutOf_append cutOf_le closed_cut redacted redacted_append scan_cut scan_finish)

/-- How a text is laid out in lines: those that are stored, and the open one. -/
def lay (t : Text) : List Text × Text :=
  let (lines, rest) := completeLines t
  let (pieces, last) := splitLong rest.length rest
  (lines ++ pieces, last)

/-- No complete line of the text is too long. -/
def ShortLines (t : Text) : Prop := ∀ l ∈ (completeLines t).1, l.size ≤ maxStoredLine

/-- What is shown of a text before it ends, and how often it was masked. -/
def shownBefore (secrets : List (Text × String)) (t : Text) : Text × Nat := redacted secrets (t.take (cutOf secrets t))

/-- What is held back of a text until it goes on or ends. -/
def heldBack (secrets : List (Text × String)) (t : Text) : Text := t.drop (cutOf secrets t)

/-- No complete line is too long: in what is shown of the text before it ends, and in what its end makes of the line that
is open then. -/
def Fits (secrets : List (Text × String)) (t : Text) : Prop :=
  ShortLines (shownBefore secrets t).1 ∧
    ShortLines ((lay (shownBefore secrets t).1).2 ++ (redacted secrets (heldBack secrets t)).1)

/-- The sink that was fed the chunks, and then flushed. -/
def fed (limits : LogLimits) (r : Redactor) (chunks : List String) : LogSink :=
  (chunks.foldl pushChunk (LogSink.new limits r)).flush

/-- However the text is cut into chunks, a log captures the same of it, and no line that it stores is too long. -/
def Steady (r : Redactor) (t : Text) : Prop :=
  ∀ limits (chunks chunks' : List String), (chunks.map String.toList).flatten = t → (chunks'.map String.toList).flatten = t →
    (chunks.foldl pushChunk (LogSink.new limits r)).capture = (chunks'.foldl pushChunk (LogSink.new limits r)).capture ∧
    ∀ l ∈ (fed limits r chunks).head ++ (fed limits r chunks).tail, l.size ≤ maxStoredLine

section

variable {s : LogSink} {all lines : List Text} {t e f a safe : Text} {room n m k : Nat}
  {summary : LogSummary} {bytes limit : Nat} {c : Char} {r : Redactor} {secrets : List (Text × String)}

/-! ## Long lines -/

theorem completeLines_plain (plain : '\n' ∉ t) : completeLines t = ([], t) := by
  induction t with
  | nil => rfl
  | cons c t ih =>
    rw [completeLines, ih fun mem => plain (List.mem_cons_of_mem c mem)]
    dsimp only
    have other : c ≠ '\n' := fun same => plain (same ▸ List.mem_cons_self)
    rw [if_neg other]

/-- A longer text has the complete lines of the shorter one, and then those of its open line and what follows. -/
theorem completeLines_append : completeLines (e ++ f) =
    ((completeLines e).1 ++ (completeLines ((completeLines e).2 ++ f)).1,
      (completeLines ((completeLines e).2 ++ f)).2) := by
  induction e with
  | nil => rfl
  | cons c e ih =>
    rw [List.cons_append, completeLines, ih]
    rw [completeLines]
    dsimp only
    by_cases break_ : c = '\n'
    · rw [if_pos break_, if_pos break_]
      rfl
    · rw [if_neg break_, if_neg break_]
      cases found : (completeLines e).1 with
      | nil =>
        dsimp only
        rw [List.nil_append, List.nil_append, List.cons_append, completeLines]
        dsimp only
        rw [if_neg break_]
      | cons l ls => rfl

theorem splitAt_size : (splitAt room t).1.size ≤ room := by
  induction t generalizing room with
  | nil => exact Nat.zero_le _
  | cons c t ih =>
    rw [splitAt]
    split
    next fits =>
      have := @ih (room - c.utf8Size)
      rw [Text.size_cons]
      omega
    · exact Nat.zero_le _

/-- A cut inside a text is where it was when the text goes on. -/
theorem splitAt_append (long : room < t.size) :
    splitAt room (t ++ f) = ((splitAt room t).1, (splitAt room t).2 ++ f) := by
  induction t generalizing room with
  | nil => exact absurd long (Nat.not_lt_zero _)
  | cons c t ih =>
    rw [Text.size_cons] at long
    rw [List.cons_append, splitAt, splitAt]
    split
    · rw [ih (by omega)]
    · rfl

/-- A cut of a long text takes a character off. -/
theorem splitAt_shorter (long : maxStoredLine < t.size) : (splitAt maxStoredLine t).2.length < t.length := by
  cases t with
  | nil => exact absurd long (Nat.not_lt_zero _)
  | cons c t =>
    have fits : c.utf8Size ≤ maxStoredLine := Nat.le_trans c.utf8Size_le_four (by decide)
    have parts : (splitAt (maxStoredLine - c.utf8Size) t).1 ++ (splitAt (maxStoredLine - c.utf8Size) t).2 = t :=
      splitAt_spec
    have sizes := congrArg List.length parts
    rw [List.length_append] at sizes
    rw [splitAt, if_pos fits]
    dsimp only
    rw [List.length_cons]
    omega

/-- As many steps as characters are enough. -/
theorem splitLong_steps (enough : t.length ≤ n) (enough' : t.length ≤ m) : splitLong n t = splitLong m t := by
  induction n generalizing m t with
  | zero =>
    have none : t = [] := List.eq_nil_of_length_eq_zero (Nat.le_zero.mp enough)
    subst none
    cases m with
    | zero => rfl
    | succ m => rfl
  | succ n ih =>
    cases m with
    | zero =>
      have none : t = [] := List.eq_nil_of_length_eq_zero (Nat.le_zero.mp enough')
      subst none
      rfl
    | succ m =>
      rw [splitLong, splitLong]
      split
      next long =>
        have shorter := splitAt_shorter long
        dsimp only
        rw [@ih _ m (by omega) (by omega)]
      · rfl

/-- A text that goes on is cut where it was, and then what was left of it with what follows. -/
theorem splitLong_append (enough : t.length ≤ n) (enough' : (t ++ f).length ≤ m)
    (enough'' : ((splitLong n t).2 ++ f).length ≤ k) : splitLong m (t ++ f) =
      ((splitLong n t).1 ++ (splitLong k ((splitLong n t).2 ++ f)).1, (splitLong k ((splitLong n t).2 ++ f)).2) := by
  induction n generalizing m t with
  | zero =>
    have none : t = [] := List.eq_nil_of_length_eq_zero (Nat.le_zero.mp enough)
    subst none
    exact splitLong_steps enough' enough''
  | succ n ih =>
    rw [splitLong] at enough'' ⊢
    split
    next long =>
      have shorter := splitAt_shorter long
      rw [if_pos long] at enough''
      dsimp only at enough'' ⊢
      cases m with
      | zero =>
        rw [List.length_append] at enough'
        omega
      | succ m =>
        have longer : (t ++ f).size > maxStoredLine := by
          rw [Text.size_append]
          omega
        rw [splitLong, if_pos longer, splitAt_append long]
        dsimp only
        rw [List.length_append] at enough'
        rw [ih (by omega) (by rw [List.length_append]; omega) enough'']
        rfl
    next short =>
      rw [if_neg short] at enough''
      exact splitLong_steps enough' enough''

theorem splitLong_short (enough : t.length ≤ n) :
    (∀ p ∈ (splitLong n t).1, p.size ≤ maxStoredLine) ∧ (splitLong n t).2.size ≤ maxStoredLine := by
  induction n generalizing t with
  | zero =>
    have none : t = [] := List.eq_nil_of_length_eq_zero (Nat.le_zero.mp enough)
    subst none
    exact ⟨fun _ mem => absurd mem List.not_mem_nil, Nat.zero_le _⟩
  | succ n ih =>
    rw [splitLong]
    split
    next long =>
      have shorter := splitAt_shorter long
      obtain ⟨pieces, last⟩ := @ih (splitAt maxStoredLine t).2 (by omega)
      refine ⟨fun p mem => ?_, last⟩
      rcases List.mem_cons.mp mem with rfl | mem
      · exact splitAt_size
      · exact pieces p mem
    next short => exact ⟨fun _ mem => absurd mem List.not_mem_nil, Nat.not_lt.mp short⟩

theorem splitLong_fits (short : t.size ≤ maxStoredLine) : splitLong n t = ([], t) := by
  cases n with
  | zero => rfl
  | succ n => rw [splitLong, if_neg (Nat.not_lt.mpr short)]

/-! ## Lines as they come -/

theorem completeLines_goes (goes : '\n' ∈ f) : ∃ l ls, (completeLines f).1 = l :: ls := by
  induction f with
  | nil => cases goes
  | cons c f ih =>
    rw [completeLines]
    dsimp only
    split
    · exact ⟨_, _, rfl⟩
    next other =>
      rcases List.mem_cons.mp goes with same | goes
      · exact absurd same.symm other
      · obtain ⟨l, ls, found⟩ := ih goes
        rw [found]
        exact ⟨_, _, rfl⟩

/-- The first line that is completed begins with the open one. -/
theorem completeLines_open (plain : '\n' ∉ a) (goes : '\n' ∈ f) :
    ∃ l ls, (completeLines (a ++ f)).1 = (a ++ l) :: ls := by
  induction a with
  | nil => exact completeLines_goes goes
  | cons c a ih =>
    obtain ⟨l, ls, found⟩ := ih fun mem => plain (List.mem_cons_of_mem c mem)
    have other : c ≠ '\n' := fun same => plain (same ▸ List.mem_cons_self)
    refine ⟨l, ls, ?_⟩
    rw [List.cons_append, completeLines]
    dsimp only
    rw [if_neg other, found]
    rfl

theorem absorb_eq : s.absorb safe = { (lay (s.line ++ safe)).1.foldl store s with line := (lay (s.line ++ safe)).2 } :=
  rfl

/-- While the complete lines are short, a text is laid out the same when it comes in parts. -/
theorem lay_append (short : ShortLines (e ++ f)) :
    lay (e ++ f) = ((lay e).1 ++ (lay ((lay e).2 ++ f)).1, (lay ((lay e).2 ++ f)).2) := by
  rw [ShortLines, completeLines_append] at short
  have plain := (completeLines_spec e).2
  rw [lay, completeLines_append, lay]
  dsimp only
  generalize (completeLines e).1 = first at *
  generalize (completeLines e).2 = a at *
  by_cases goes : '\n' ∈ f
  · -- The open line is completed, so it is short, and nothing was cut off it.
    obtain ⟨l, ls, found⟩ := completeLines_open plain goes
    have fits : a.size ≤ maxStoredLine := by
      have whole := short (a ++ l) (List.mem_append_right first (found ▸ List.mem_cons_self))
      rw [Text.size_append] at whole
      omega
    rw [splitLong_fits fits]
    dsimp only
    rw [List.append_nil, lay]
    dsimp only
    rw [List.append_assoc]
  · -- Nothing is completed, and the open line is cut where it was.
    have kept := @splitLong_spec a a.length
    have rest : '\n' ∉ (splitLong a.length a).2 ++ f := fun mem =>
      (List.mem_append.mp mem).elim (fun mem => plain (kept ▸ List.mem_append_right _ mem)) goes
    have whole : '\n' ∉ a ++ f := fun mem => (List.mem_append.mp mem).elim plain goes
    rw [completeLines_plain whole, lay, completeLines_plain rest]
    dsimp only
    rw [splitLong_append (Nat.le_refl a.length) (Nat.le_refl _) (Nat.le_refl _), List.append_nil, List.nil_append,
      List.append_assoc]

theorem ShortLines.front (short : ShortLines (e ++ f)) : ShortLines e := fun l mem => short l (by
  rw [completeLines_append]
  exact List.mem_append_left _ mem)

theorem ShortLines.lay (short : ShortLines t) :
    (∀ l ∈ (LogSink.lay t).1, l.size ≤ maxStoredLine) ∧ (LogSink.lay t).2.size ≤ maxStoredLine := by
  obtain ⟨pieces, last⟩ := splitLong_short (Nat.le_refl (completeLines t).2.length)
  refine ⟨fun l mem => ?_, last⟩
  rcases List.mem_append.mp mem with mem | mem
  · exact short l mem
  · exact pieces l mem

theorem shortLines_of_lay (short : ∀ l ∈ (lay t).1, l.size ≤ maxStoredLine) : ShortLines t :=
  fun l mem => short l (List.mem_append_left _ mem)

/-! ## Storing beside the redactor -/

/-- The sink with another open line, other text held back and another number of masked spans. -/
def mark (s : LogSink) (pending line : Text) (n : Nat) : LogSink :=
  { s with pending := pending, line := line, summary := { s.summary with redactions := n } }

theorem dropFront_marked (lines : List Text) (bytes : Nat) (summary : LogSummary) :
    dropFront limit lines bytes { summary with redactions := n } =
    ((dropFront limit lines bytes summary).1, (dropFront limit lines bytes summary).2.1,
      { (dropFront limit lines bytes summary).2.2 with redactions := n }) := by
  induction lines generalizing bytes summary with
  | nil => rfl
  | cons l lines ih =>
    rw [dropFront, dropFront]
    split
    · exact ih (bytes - (l.size + 1))
        { summary with
          linesDropped := summary.linesDropped + 1
          bytesDropped := summary.bytesDropped + (l.size + 1) }
    · rfl

/-- A line that the head has room for. -/
theorem store_room (room : s.headBytes + (t.size + 1) ≤ s.limits.headBytes ∧ s.tail.isEmpty = true) :
    s.store t = { s with
      headBytes := s.headBytes + (t.size + 1)
      head := s.head ++ [t]
      summary := { s.summary with linesSeen := s.summary.linesSeen + 1 } } := by
  rw [store]
  exact if_pos room

/-- A line that goes to the tail. -/
theorem store_full (full : ¬ (s.headBytes + (t.size + 1) ≤ s.limits.headBytes ∧ s.tail.isEmpty = true)) :
    s.store t =
      let left := dropFront s.limits.tailBytes (s.tail ++ [t]) (s.tailBytes + (t.size + 1))
        { s.summary with linesSeen := s.summary.linesSeen + 1 }
      { s with tail := left.1, tailBytes := left.2.1, summary := left.2.2 } := by
  rw [store]
  exact if_neg full

theorem store_marked {held : Text} : (s.mark held a n).store t = (s.store t).mark held a n := by
  by_cases room : s.headBytes + (t.size + 1) ≤ s.limits.headBytes ∧ s.tail.isEmpty = true
  · rw [store_room room]
    exact store_room room
  · have counted := @dropFront_marked n s.limits.tailBytes (s.tail ++ [t]) (s.tailBytes + (t.size + 1))
      { s.summary with linesSeen := s.summary.linesSeen + 1 }
    have full : ¬ ((s.mark held a n).headBytes + (t.size + 1) ≤ (s.mark held a n).limits.headBytes ∧
      (s.mark held a n).tail.isEmpty = true) := room
    rw [store_full room, store_full full]
    dsimp only [mark] at counted ⊢
    rw [counted]

theorem foldl_store_marked {held : Text} : lines.foldl store (s.mark held a n) = (lines.foldl store s).mark held a n := by
  induction lines generalizing s with
  | nil => rfl
  | cons l lines ih => rw [List.foldl_cons, List.foldl_cons, store_marked, ih]

/-- With room in the head, every line is in the head. -/
theorem foldl_store_head (none : s.tail = []) (room : s.headBytes + (linesText lines).size ≤ s.limits.headBytes) :
    (lines.foldl store s).head = s.head ++ lines := by
  induction lines generalizing s with
  | nil => exact (List.append_nil _).symm
  | cons l lines ih =>
    rw [linesText_cons] at room
    have here : s.headBytes + (l.size + 1) ≤ s.limits.headBytes ∧ s.tail.isEmpty = true :=
      ⟨by omega, List.isEmpty_iff.mpr none⟩
    have stored := store_room here
    have empty : (s.store l).tail = [] := by rw [stored]; exact none
    have more : (s.store l).headBytes + (linesText lines).size ≤ (s.store l).limits.headBytes := by
      rw [stored]
      dsimp only
      omega
    rw [List.foldl_cons, ih empty more, stored]
    exact (List.append_cons s.head l lines).symm

/-! ## The sink after a text -/

/-- The sink to which the text was given at once. -/
def sinkAt (limits : LogLimits) (r : Redactor) (t : Text) : LogSink :=
  ((lay (shownBefore r.secrets t).1).1.foldl store (LogSink.new limits r)).mark (heldBack r.secrets t)
    (lay (shownBefore r.secrets t).1).2 (shownBefore r.secrets t).2

/-- The lines that are stored of a text that ends. -/
def storedOf (secrets : List (Text × String)) (t : Text) : List Text :=
  let open_ := (lay (shownBefore secrets t).1).2 ++ (redacted secrets (heldBack secrets t)).1
  (lay (shownBefore secrets t).1).1 ++ (lay open_).1 ++ if (lay open_).2.isEmpty then [] else [(lay open_).2]

theorem fits_iff : Fits secrets t ↔ ∀ l ∈ storedOf secrets t, l.size ≤ maxStoredLine := by
  constructor
  · rintro ⟨before, behind⟩ l mem
    obtain ⟨first, _⟩ := before.lay
    obtain ⟨second, last⟩ := behind.lay
    rcases List.mem_append.mp mem with mem | mem
    · rcases List.mem_append.mp mem with mem | mem
      · exact first l mem
      · exact second l mem
    · split at mem
      · cases mem
      · rw [List.mem_singleton.mp mem]
        exact last
  · intro short
    exact ⟨shortLines_of_lay fun l mem => short l (List.mem_append_left _ (List.mem_append_left _ mem)),
      shortLines_of_lay fun l mem => short l (List.mem_append_left _ (List.mem_append_right _ mem))⟩

theorem shownBefore_append : shownBefore secrets (t ++ f) =
    ((shownBefore secrets t).1 ++ (shownBefore secrets (heldBack secrets t ++ f)).1,
      (shownBefore secrets t).2 + (shownBefore secrets (heldBack secrets t ++ f)).2) := by
  have size : (t.take (cutOf secrets t)).length = cutOf secrets t := by
    rw [List.length_take, Nat.min_eq_left cutOf_le]
  have whole : t ++ f = t.take (cutOf secrets t) ++ (heldBack secrets t ++ f) := by
    rw [heldBack, ← List.append_assoc, List.take_append_drop]
  have front : (t ++ f).take (cutOf secrets (t ++ f)) = t.take (cutOf secrets t) ++
      (heldBack secrets t ++ f).take (cutOf secrets (heldBack secrets t ++ f)) := by
    rw [cutOf_append, whole]
    have taken := @List.take_length_add_append _ (t.take (cutOf secrets t)) (heldBack secrets t ++ f)
      (cutOf secrets (heldBack secrets t ++ f))
    rwa [size] at taken
  rw [shownBefore, front, redacted_append]
  · rfl
  · exact closed_cut.front (List.take_prefix _ _)

theorem heldBack_append : heldBack secrets (t ++ f) = heldBack secrets (heldBack secrets t ++ f) := by
  have size : (t.take (cutOf secrets t)).length = cutOf secrets t := by
    rw [List.length_take, Nat.min_eq_left cutOf_le]
  have whole : t ++ f = t.take (cutOf secrets t) ++ (heldBack secrets t ++ f) := by
    rw [heldBack, ← List.append_assoc, List.take_append_drop]
  rw [heldBack, cutOf_append, whole]
  have dropped := @List.drop_length_add_append _ (t.take (cutOf secrets t)) (heldBack secrets t ++ f)
    (cutOf secrets (heldBack secrets t ++ f))
  rwa [size] at dropped

/-! ## What is captured -/

/-- A sink that lines were stored in, with text held back and a line open, takes in a chunk. -/
theorem pushChunk_marked (works : r.fail = false) (limits : LogLimits) {chunk : String} {held : Text} :
    ((lines.foldl store (LogSink.new limits r)).mark held a n).pushChunk chunk =
      (((lines ++ (lay (a ++ (shownBefore r.secrets (held ++ chunk.toList)).1)).1).foldl store
        (LogSink.new limits r)).mark (heldBack r.secrets (held ++ chunk.toList))
          (lay (a ++ (shownBefore r.secrets (held ++ chunk.toList)).1)).2
          (n + (shownBefore r.secrets (held ++ chunk.toList)).2)) := by
  obtain ⟨same, _, _, _, shows⟩ := @foldl_store_same (LogSink.new limits r) lines
  rw [List.foldl_append]
  generalize lines.foldl store (LogSink.new limits r) = s at same shows ⊢
  have given : (LogSink.new limits r).redactor = r := rfl
  have scanned : (s.mark held a n).redactor.scan (s.mark held a n).pending chunk.toList false =
      .ok (shownBefore r.secrets (held ++ chunk.toList), heldBack r.secrets (held ++ chunk.toList)) := by
    change s.redactor.scan held chunk.toList false = _
    rw [same, given]
    exact scan_cut works
  have visible : (s.mark held a n).summary.withheld = false := shows
  rw [pushChunk, visible, if_neg Bool.false_ne_true, scanned]
  change (s.mark (heldBack r.secrets (held ++ chunk.toList)) a
    (n + (shownBefore r.secrets (held ++ chunk.toList)).2)).absorb (shownBefore r.secrets (held ++ chunk.toList)).1 = _
  rw [absorb_eq, foldl_store_marked]
  rfl

theorem sinkAt_nil (limits : LogLimits) : sinkAt limits r [] = LogSink.new limits r := by
  have none : shownBefore r.secrets [] = ([], 0) := by
    rw [shownBefore, List.take_nil]
    rfl
  have nothing : heldBack r.secrets [] = [] := List.drop_nil
  rw [sinkAt, none, nothing]
  rfl

/-- The first chunk of a text. -/
theorem pushChunk_new (works : r.fail = false) (limits : LogLimits) (t : Text) :
    (LogSink.new limits r).pushChunk (String.ofList t) = sinkAt limits r t := by
  have pushed := @pushChunk_marked [] [] 0 r works limits (String.ofList t) []
  rw [List.nil_append, List.nil_append, List.nil_append, Nat.zero_add, String.toList_ofList] at pushed
  exact pushed

/-- A sink takes in more of a text as if it had come at once, while the complete lines are short. -/
theorem pushChunk_at (works : r.fail = false) (limits : LogLimits) {chunk : String}
    (short : ShortLines (shownBefore r.secrets (t ++ chunk.toList)).1) :
    (sinkAt limits r t).pushChunk chunk = sinkAt limits r (t ++ chunk.toList) := by
  have shown : shownBefore r.secrets (t ++ chunk.toList) = _ := shownBefore_append
  have held : heldBack r.secrets (t ++ chunk.toList) = _ := heldBack_append
  rw [shown] at short
  rw [sinkAt, pushChunk_marked works, sinkAt, shown, held, lay_append short]

/-- While the complete lines of a text are short, its chunks are taken in as the whole text is. -/
theorem foldl_pushChunk_at (works : r.fail = false) (limits : LogLimits) {chunks : List String}
    (short : ShortLines (shownBefore r.secrets (t ++ (chunks.map String.toList).flatten)).1) :
    chunks.foldl pushChunk (sinkAt limits r t) = sinkAt limits r (t ++ (chunks.map String.toList).flatten) := by
  induction chunks generalizing t with
  | nil =>
    rw [List.map_nil, List.flatten_nil, List.append_nil]
    rfl
  | cons chunk rest ih =>
    rw [List.map_cons, List.flatten_cons, ← List.append_assoc] at short ⊢
    have before : ShortLines (shownBefore r.secrets (t ++ chunk.toList)).1 := by
      rw [shownBefore_append] at short
      exact short.front
    rw [List.foldl_cons, pushChunk_at works limits before, ih short]

/-- What is stored of a text that came at once. -/
theorem flush_at (works : r.fail = false) (limits : LogLimits) (t : Text) : ∃ n,
    (sinkAt limits r t).flush = ((storedOf r.secrets t).foldl store (LogSink.new limits r)).mark [] [] n := by
  obtain ⟨same, _, _, _, shows⟩ := @foldl_store_same (LogSink.new limits r) (lay (shownBefore r.secrets t).1).1
  have given : (LogSink.new limits r).redactor = r := rfl
  rw [storedOf, sinkAt, List.foldl_append, List.foldl_append]
  generalize (lay (shownBefore r.secrets t).1).1.foldl store (LogSink.new limits r) = s at same shows ⊢
  generalize (lay (shownBefore r.secrets t).1).2 = a
  generalize heldBack r.secrets t = held
  generalize (shownBefore r.secrets t).2 = n
  have scanned : (s.mark held a n).redactor.scan (s.mark held a n).pending [] true =
      .ok (redacted r.secrets held, []) := by
    change s.redactor.scan held [] true = _
    rw [same, given, scan_finish works, List.append_nil]
  have visible : (s.mark held a n).summary.withheld = false := shows
  have absorbed : (s.mark [] a (n + (redacted r.secrets held).2)).absorb (redacted r.secrets held).1 =
      ((lay (a ++ (redacted r.secrets held).1)).1.foldl store s).mark [] (lay (a ++ (redacted r.secrets held).1)).2
        (n + (redacted r.secrets held).2) := by
    rw [absorb_eq, foldl_store_marked]
    rfl
  refine ⟨n + (redacted r.secrets held).2, ?_⟩
  rw [LogSink.flush, visible, if_neg Bool.false_ne_true, scanned]
  change (let s := (s.mark [] a (n + (redacted r.secrets held).2)).absorb (redacted r.secrets held).1
    if s.line.isEmpty then s else { s with line := [] }.store s.line) = _
  rw [absorbed]
  generalize lay (a ++ (redacted r.secrets held).1) = laid
  dsimp only
  by_cases open_ : laid.2.isEmpty = true
  · have none : laid.2 = [] := List.isEmpty_iff.mp open_
    rw [if_pos open_, none]
    exact if_pos rfl
  · rw [if_neg open_]
    refine (if_neg open_).trans ?_
    exact @store_marked (laid.1.foldl store s) laid.2 [] (n + (redacted r.secrets held).2) []

/-- The lines that are kept of a text are of those that are stored of it, and all of them when the head has room. -/
theorem flush_at_lines (works : r.fail = false) (limits : LogLimits) (t : Text) :
    List.Sublist ((sinkAt limits r t).flush.head ++ (sinkAt limits r t).flush.tail) (storedOf r.secrets t) ∧
      ((linesText (storedOf r.secrets t)).size ≤ limits.headBytes →
        (sinkAt limits r t).flush.head = storedOf r.secrets t) := by
  obtain ⟨n, flushed⟩ := flush_at works limits t
  rw [flushed]
  generalize storedOf r.secrets t = all
  have kept := @foldl_store_keeps _ _ all (@new_keeps r limits)
  rw [List.nil_append] at kept
  refine ⟨kept.kept, fun room => ?_⟩
  have head := @foldl_store_head (LogSink.new limits r) all rfl
    (Nat.le_trans (Nat.le_of_eq (Nat.zero_add _)) room)
  have blank : (LogSink.new limits r).head = [] := rfl
  rw [blank, List.nil_append] at head
  exact head

theorem capture_congr {s s' : LogSink} (same : s.flush = s'.flush) : s.capture = s'.capture := by
  rw [capture, capture, same]

/-- A sink whose redactor fails holds nothing, whatever it is fed. -/
theorem fails_flush (fails : r.fail = true) (limits : LogLimits) (chunks : List String) :
    fed limits r chunks = (LogSink.new limits r).withhold := by
  have withheld : ∀ chunks : List String, (chunks.foldl pushChunk (LogSink.new limits r).withhold).flush =
      (LogSink.new limits r).withhold := by
    intro chunks
    induction chunks with
    | nil => rfl
    | cons chunk rest ih => exact ih
  have given : (LogSink.new limits r).redactor = r := rfl
  have shows : (LogSink.new limits r).summary.withheld = false := rfl
  cases chunks with
  | nil => rw [fed, List.foldl_nil, LogSink.flush, shows, if_neg Bool.false_ne_true, given, scan_fails fails]
  | cons chunk rest =>
    have first : (LogSink.new limits r).pushChunk chunk = (LogSink.new limits r).withhold := by
      rw [pushChunk, shows, if_neg Bool.false_ne_true, given, scan_fails fails]
    rw [fed, List.foldl_cons, first, withheld]

/-- A stream that is stored alike in all chunks has no complete line that is too long: alone in one chunk it would be
stored whole. -/
theorem Steady.fits (steady : Steady r t) (works : r.fail = false) : Fits r.secrets t := by
  refine fits_iff.mpr fun l mem => ?_
  have whole : ([String.ofList t].map String.toList).flatten = t := by
    rw [List.map_singleton, List.flatten_singleton, String.toList_ofList]
  let limits : LogLimits := ⟨(linesText (storedOf r.secrets t)).size, 0⟩
  refine (steady limits _ _ whole whole).2 l ?_
  have once : fed limits r [String.ofList t] = (sinkAt limits r t).flush :=
    congrArg LogSink.flush (pushChunk_new works limits t)
  rw [once, (flush_at_lines works limits t).2 (Nat.le_refl _)]
  exact List.mem_append_left _ mem

theorem Fits.steady (fits : Fits r.secrets t) (works : r.fail = false) : Steady r t := by
  intro limits chunks chunks' whole whole'
  have at_ : ∀ chunks : List String, (chunks.map String.toList).flatten = t →
      chunks.foldl pushChunk (LogSink.new limits r) = sinkAt limits r t := by
    intro chunks whole
    have run := @foldl_pushChunk_at [] r works limits chunks
    rw [List.nil_append, whole, sinkAt_nil] at run
    exact run fits.1
  rw [at_ chunks whole, at_ chunks' whole']
  refine ⟨rfl, fun l mem => ?_⟩
  rw [fed, at_ chunks whole] at mem
  exact fits_iff.mp fits l ((flush_at_lines works limits t).1.subset mem)

theorem steady_of_fails (fails : r.fail = true) : Steady r t := by
  intro limits chunks chunks' _ _
  have none := fails_flush fails limits
  refine ⟨capture_congr ((none chunks).trans (none chunks').symm), fun l mem => ?_⟩
  rw [none chunks] at mem
  cases mem

/-- A log depends on the stream alone and keeps its lines short exactly when the redactor fails or no complete line is too
long. -/
theorem steady_iff (r : Redactor) (t : Text) : Steady r t ↔ r.fail = true ∨ Fits r.secrets t := by
  cases works : r.fail with
  | true => exact iff_of_true (steady_of_fails works) (.inl rfl)
  | false =>
    constructor
    · exact fun steady => .inr (steady.fits works)
    · exact fun so => (so.resolve_left Bool.false_ne_true).steady works

theorem size_replicate (n : Nat) (c : Char) : Text.size (List.replicate n c) = n * c.utf8Size := by
  induction n with
  | zero => exact (Nat.zero_mul _).symm
  | succ n ih => rw [List.replicate_succ, Text.size_cons, ih, Nat.succ_mul, Nat.add_comm]

theorem shownBefore_none : shownBefore [] t = (t, 0) := by
  rw [shownBefore, Redactor.cutOf_none, List.take_length, Redactor.redacted_none]

theorem completeLines_one (plain : '\n' ∉ t) : completeLines (t ++ ['\n']) = ([t], []) := by
  induction t with
  | nil => rfl
  | cons c t ih =>
    have other : c ≠ '\n' := fun same => plain (same ▸ List.mem_cons_self)
    rw [List.cons_append, completeLines, ih fun mem => plain (List.mem_cons_of_mem c mem)]
    exact if_neg other

/-- A line of 16385 bytes that ends in its chunk is stored whole. -/
theorem long_line_stored : ¬ Steady .none (List.replicate 16385 'a' ++ ['\n']) := by
  intro steady
  have short := (steady.fits rfl).1
  have none : Redactor.none.secrets = [] := rfl
  have plain : '\n' ∉ List.replicate 16385 'a' := fun mem => absurd (List.eq_of_mem_replicate mem) (by decide)
  rw [none, shownBefore_none] at short
  have line := short (List.replicate 16385 'a') (by rw [completeLines_one plain]; exact List.mem_cons_self)
  rw [size_replicate] at line
  exact absurd line (by decide)

end

end Harpoon.Deploy.LogSink
