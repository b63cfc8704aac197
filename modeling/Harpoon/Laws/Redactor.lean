import Harpoon.Deploy.Logs

/-!
# Redacting a stream

A redactor that is fed a stream in chunks emits what it makes of the whole stream at once, however the stream is cut.
What it holds back begins where a secret could still begin, and no match of the text before reaches into it. So each
step takes off a part of the text that is redacted for itself, whatever follows.

What a redactor makes of a text is the text in pieces, some of them masked; every occurrence of a secret is inside one
masked piece.
-/

namespace Harpoon.Deploy

/-- The span, `k` further on. -/
def Span.shift (k : Nat) (s : Span) : Span := ⟨s.start + k, s.stop + k, s.names⟩

namespace Redactor

/-- The matches in a text, merged, in order. -/
def merged (secrets : List (Text × String)) (t : Text) : List Span := ((spansFrom secrets 0 t).foldl merge []).reverse

/-- What a text is redacted to, and how many spans were masked. -/
def redacted (secrets : List (Text × String)) (t : Text) : Text × Nat :=
  let masks := mask t t.length (merged secrets t) 0
  (masks.1, masks.2.2)

/-- No match that begins in the first text reaches into the second. -/
def Closed (secrets : List (Text × String)) (x y : Text) : Prop :=
  ∀ u, u ≠ [] → u <:+ x → ∀ s ∈ secrets, s.1 <+: u ++ y → s.1 <+: u

/-- What the redactor emits for a stream in chunks, and how many spans it masks. -/
def stream (r : Redactor) : Text → List Text → Except String (Text × Nat)
  | pending, [] => (r.scan pending [] true).map (·.1)
  | pending, c :: cs => do
    let step ← r.scan pending c false
    let rest ← r.stream step.2 cs
    return (step.1.1 ++ rest.1, step.1.2 + rest.2)

/-- A part of a text, shown as it is or replaced by the marker of its labels. -/
inductive Piece where
  | plain (text : Text)
  | masked (text : Text) (names : List String)

def Piece.raw : Piece → Text
  | .plain text => text
  | .masked text _ => text

def Piece.shown : Piece → Text
  | .plain text => text
  | .masked _ names => marker names

/-- The text from `i` on, in pieces. -/
def pieces (t : Text) : List Span → Nat → List Piece
  | [], i => [.plain (t.drop i)]
  | s :: ss, i =>
    .plain ((t.drop i).take (s.start - i)) :: .masked ((t.drop s.start).take (s.stop - s.start)) s.names ::
      pieces t ss s.stop

/-- Every occurrence of `v` in the text of the pieces is inside one masked piece. -/
def Masks (ps : List Piece) (v : Text) : Prop :=
  ∀ a b, ps.flatMap Piece.raw = a ++ v ++ b → ∃ before text names after l r,
    ps = before ++ .masked text names :: after ∧ a = before.flatMap Piece.raw ++ l ∧ text = l ++ v ++ r ∧
      b = r ++ after.flatMap Piece.raw

/-- Each character of the text belongs to a secret that is in the text. -/
def OfSecrets (secrets : List (Text × String)) (text : Text) : Prop :=
  ∀ i, i < text.length → ∃ v ∈ secrets, ∃ a b, text = a ++ v.1 ++ b ∧ a.length ≤ i ∧ i < a.length + v.1.length

section

variable {secrets : List (Text × String)} {t x y f u : Text} {i j k c d cut : Nat} {s m : Span}
  {ms acc as bs spans : List Span}

/-! ## Matches -/

/-- The match of one secret at the start of `t`, which is at position `i`. -/
def matchAt (i : Nat) (t : Text) (v : Text × String) : Option Span :=
  if v.1.isPrefixOf t then some ⟨i, i + v.1.length, [v.2]⟩ else .none

theorem spansFrom_cons {ch : Char} :
    spansFrom secrets i (ch :: t) = secrets.filterMap (matchAt i (ch :: t)) ++ spansFrom secrets (i + 1) t := rfl

theorem matchAt_some {v : Text × String} (here : matchAt i t v = some s) :
    v.1 <+: t ∧ s = ⟨i, i + v.1.length, [v.2]⟩ := by
  unfold matchAt at here
  split at here
  next begins =>
    cases here
    exact ⟨List.isPrefixOf_iff_prefix.mp begins, rfl⟩
  · cases here

theorem matchAt_of_prefix {v : Text × String} (begins : v.1 <+: t) : matchAt i t v = some ⟨i, i + v.1.length, [v.2]⟩ :=
  if_pos (List.isPrefixOf_iff_prefix.mpr begins)

theorem matchAt_shift {v : Text × String} : matchAt (i + k) t v = (matchAt i t v).map (Span.shift k) := by
  unfold matchAt
  split
  · simp [Span.shift, Nat.add_right_comm]
  · rfl

theorem matchAt_congr (same : ∀ v ∈ secrets, (v.1 <+: x ↔ v.1 <+: y)) :
    secrets.filterMap (matchAt i x) = secrets.filterMap (matchAt i y) := by
  induction secrets with
  | nil => rfl
  | cons v rest ih =>
    have here : matchAt i x v = matchAt i y v := by
      have agree : v.1.isPrefixOf x = v.1.isPrefixOf y := by
        rw [Bool.eq_iff_iff, List.isPrefixOf_iff_prefix, List.isPrefixOf_iff_prefix]
        exact same v List.mem_cons_self
      rw [matchAt, matchAt, agree]
    rw [List.filterMap_cons, List.filterMap_cons, here, ih fun v mem => same v (List.mem_cons_of_mem _ mem)]

theorem spansFrom_shift : spansFrom secrets (i + k) t = (spansFrom secrets i t).map (Span.shift k) := by
  induction t generalizing i with
  | nil => rfl
  | cons ch t ih =>
    rw [spansFrom_cons, spansFrom_cons, List.map_append, Nat.add_right_comm, ih, List.map_filterMap]
    congr 2
    funext v
    exact matchAt_shift

theorem mem_spansFrom : s ∈ spansFrom secrets i t ↔
    ∃ j, j < t.length ∧ ∃ v ∈ secrets, v.1 <+: t.drop j ∧ s = ⟨i + j, i + j + v.1.length, [v.2]⟩ := by
  induction t generalizing i with
  | nil => simp [spansFrom]
  | cons ch t ih =>
    rw [spansFrom_cons, List.mem_append, List.mem_filterMap, ih]
    constructor
    · rintro (⟨v, known, here⟩ | ⟨j, inside, v, known, begins, rfl⟩)
      · obtain ⟨begins, rfl⟩ := matchAt_some here
        exact ⟨0, Nat.succ_pos _, v, known, begins, rfl⟩
      · refine ⟨j + 1, Nat.succ_lt_succ inside, v, known, begins, ?_⟩
        rw [Nat.add_right_comm, Nat.add_assoc i j 1]
    · rintro ⟨j, inside, v, known, begins, rfl⟩
      cases j with
      | zero => exact .inl ⟨v, known, matchAt_of_prefix begins⟩
      | succ j =>
        refine .inr ⟨j, Nat.lt_of_succ_lt_succ inside, v, known, begins, ?_⟩
        rw [Nat.add_right_comm i 1 j, Nat.add_assoc i j 1]

/-- A match lies within its text. -/
theorem span_bounds (mem : s ∈ spansFrom secrets 0 t) : s.start < t.length ∧ s.start ≤ s.stop ∧ s.stop ≤ t.length := by
  obtain ⟨j, inside, v, _, begins, rfl⟩ := mem_spansFrom.mp mem
  have short := begins.length_le
  rw [List.length_drop] at short
  dsimp only
  omega

/-- The matches come in the order in which they begin. -/
theorem spansFrom_sorted : (spansFrom secrets i t).Pairwise fun a b => a.start ≤ b.start := by
  induction t generalizing i with
  | nil => exact .nil
  | cons ch t ih =>
    have here : ∀ s ∈ secrets.filterMap (matchAt i (ch :: t)), s.start = i := by
      intro s mem
      obtain ⟨v, _, made⟩ := List.mem_filterMap.mp mem
      rw [(matchAt_some made).2]
    rw [spansFrom_cons]
    refine List.pairwise_append.mpr ⟨?_, ih, fun a first b second => ?_⟩
    · exact List.pairwise_of_forall_mem_list fun a first b second =>
        Nat.le_of_eq ((here a first).trans (here b second).symm)
    · obtain ⟨j, _, _, _, _, rfl⟩ := mem_spansFrom.mp second
      rw [here a first]
      dsimp only
      omega

/-- Where no match crosses, the matches of a text are those of its two parts. -/
theorem spansFrom_append (closed : Closed secrets x y) :
    spansFrom secrets i (x ++ y) = spansFrom secrets i x ++ spansFrom secrets (i + x.length) y := by
  induction x generalizing i with
  | nil => rfl
  | cons ch x ih =>
    have rest : Closed secrets x y := fun u some suffix => closed u some (suffix.trans (List.suffix_cons ch x))
    have here : ∀ v ∈ secrets, (v.1 <+: ch :: (x ++ y) ↔ v.1 <+: ch :: x) := fun v known =>
      ⟨closed (ch :: x) (List.cons_ne_nil ch x) List.suffix_rfl v known,
        fun begins => begins.trans (List.prefix_append (ch :: x) y)⟩
    rw [List.cons_append, spansFrom_cons, spansFrom_cons, ih rest, List.append_assoc, List.length_cons, Nat.add_assoc,
      Nat.add_comm 1, matchAt_congr here]

/-! ## Merging -/

theorem merge_append (before : ∀ m ∈ acc, m.stop ≤ s.start) : merge (ms ++ acc) s = merge ms s ++ acc := by
  cases ms with
  | nil =>
    cases acc with
    | nil => rfl
    | cons m acc => exact if_neg (Nat.not_lt.mpr (before m List.mem_cons_self))
  | cons m ms =>
    rw [List.cons_append, merge, merge]
    split
    · split <;> rfl
    · rfl

/-- Matches behind a list of spans are merged for themselves. -/
theorem foldl_merge_append (before : ∀ m ∈ acc, ∀ s ∈ spans, m.stop ≤ s.start) :
    spans.foldl merge (ms ++ acc) = spans.foldl merge ms ++ acc := by
  induction spans generalizing ms with
  | nil => rfl
  | cons s spans ih =>
    rw [List.foldl_cons, List.foldl_cons, merge_append fun m mem => before m mem s List.mem_cons_self]
    exact ih fun m mem t member => before m mem t (List.mem_cons_of_mem s member)

theorem merge_shift : merge (ms.map (Span.shift k)) (s.shift k) = (merge ms s).map (Span.shift k) := by
  cases ms with
  | nil => rfl
  | cons m ms =>
    simp only [List.map_cons, merge, Span.shift, Nat.add_lt_add_iff_right, gt_iff_lt]
    split
    · split <;> rfl
    · rfl

theorem foldl_merge_shift :
    (spans.map (Span.shift k)).foldl merge (ms.map (Span.shift k)) = (spans.foldl merge ms).map (Span.shift k) := by
  induction spans generalizing ms with
  | nil => rfl
  | cons s spans ih => rw [List.map_cons, List.foldl_cons, merge_shift, ih, List.foldl_cons]

/-- What merged spans are after the matches in `seen`: apart, the last first, within a text of `n` characters, every
match is inside one of them, and they are no more than matches. -/
structure Merged (n : Nat) (seen ms : List Span) : Prop where
  apart : ms.Pairwise fun b a => a.stop ≤ b.start
  within : ∀ m ∈ ms, m.start < n ∧ m.start ≤ m.stop ∧ m.stop ≤ n
  behind : ∀ m ∈ ms, ∃ s ∈ seen, m.start = s.start
  covers : ∀ s ∈ seen, ∃ m ∈ ms, m.start ≤ s.start ∧ s.stop ≤ m.stop
  filled : ∀ m ∈ ms, ∀ i, m.start ≤ i → i < m.stop →
    ∃ s ∈ seen, m.start ≤ s.start ∧ s.start ≤ i ∧ i < s.stop ∧ s.stop ≤ m.stop

theorem Merged.step {n : Nat} {seen : List Span} (so : Merged n seen ms) (later : ∀ a ∈ seen, a.start ≤ s.start)
    (fits : s.start < n ∧ s.start ≤ s.stop ∧ s.stop ≤ n) : Merged n (seen ++ [s]) (merge ms s) := by
  cases ms with
  | nil =>
    have none : seen = [] := by
      cases seen with
      | nil => rfl
      | cons a seen =>
        obtain ⟨_, mem, _⟩ := so.covers a List.mem_cons_self
        cases mem
    subst none
    exact {
      apart := List.pairwise_singleton _ _
      within := fun m mem => by
        rw [List.mem_singleton.mp mem]
        exact fits
      behind := fun m mem => ⟨s, List.mem_singleton_self s, by rw [List.mem_singleton.mp mem]⟩
      covers := fun a mem => ⟨s, List.mem_singleton_self s, by
        rw [List.mem_singleton.mp mem]
        exact ⟨Nat.le_refl _, Nat.le_refl _⟩⟩
      filled := fun m mem i begins ends => ⟨s, List.mem_singleton_self s, by
        rw [List.mem_singleton.mp mem] at begins ends ⊢
        exact ⟨Nat.le_refl _, begins, ends, Nat.le_refl _⟩⟩ }
  | cons m ms =>
    obtain ⟨first, rest⟩ := List.pairwise_cons.mp so.apart
    obtain ⟨in1, in2, in3⟩ := so.within m List.mem_cons_self
    obtain ⟨origin, known, starts⟩ := so.behind m List.mem_cons_self
    have notBefore : m.start ≤ s.start := starts ▸ later origin known
    have behind (a : Span) (mem : a ∈ ms) : ∃ b ∈ seen ++ [s], a.start = b.start := by
      obtain ⟨b, known, same⟩ := so.behind a (List.mem_cons_of_mem m mem)
      exact ⟨b, List.mem_append_left _ known, same⟩
    have filled (a : Span) (mem : a ∈ m :: ms) (i : Nat) (begins : a.start ≤ i) (ends : i < a.stop) :
        ∃ b ∈ seen ++ [s], a.start ≤ b.start ∧ b.start ≤ i ∧ i < b.stop ∧ b.stop ≤ a.stop := by
      obtain ⟨b, known, here⟩ := so.filled a mem i begins ends
      exact ⟨b, List.mem_append_left _ known, here⟩
    rw [merge]
    split
    next overlap =>
      split
      next longer =>
        refine ⟨List.pairwise_cons.mpr ⟨first, rest⟩, ?_, ?_, ?_, ?_⟩
        · rintro a (_ | ⟨_, mem⟩)
          · exact ⟨in1, Nat.le_trans notBefore fits.2.1, fits.2.2⟩
          · exact so.within a (List.mem_cons_of_mem m mem)
        · rintro a (_ | ⟨_, mem⟩)
          · exact ⟨origin, List.mem_append_left _ known, starts⟩
          · exact behind a mem
        · intro a mem
          rcases List.mem_append.mp mem with old | new
          · obtain ⟨b, mem, before, stops⟩ := so.covers a old
            rcases List.mem_cons.mp mem with rfl | mem
            · exact ⟨_, List.mem_cons_self, before, Nat.le_trans stops (Nat.le_of_lt longer)⟩
            · exact ⟨b, List.mem_cons_of_mem _ mem, before, stops⟩
          · rw [List.mem_singleton.mp new]
            exact ⟨_, List.mem_cons_self, notBefore, Nat.le_refl _⟩
        · rintro a (_ | ⟨_, mem⟩) i begins ends
          · rcases Nat.lt_or_ge i m.stop with old | new
            · obtain ⟨b, known, least, from_, until_, most⟩ := filled m List.mem_cons_self i begins old
              exact ⟨b, known, least, from_, until_, Nat.le_trans most (Nat.le_of_lt longer)⟩
            · exact ⟨s, List.mem_append_right _ (List.mem_singleton_self s), notBefore,
                Nat.le_trans (Nat.le_of_lt overlap) new, ends, Nat.le_refl _⟩
          · exact filled a (List.mem_cons_of_mem m mem) i begins ends
      next inside =>
        refine ⟨so.apart, so.within, ?_, ?_, filled⟩
        · rintro a (_ | ⟨_, mem⟩)
          · exact ⟨origin, List.mem_append_left _ known, starts⟩
          · exact behind a mem
        · intro a mem
          rcases List.mem_append.mp mem with old | new
          · exact so.covers a old
          · rw [List.mem_singleton.mp new]
            exact ⟨m, List.mem_cons_self, notBefore, Nat.not_lt.mp inside⟩
    next beyond =>
      have beyond : m.stop ≤ s.start := Nat.not_lt.mp beyond
      refine ⟨List.pairwise_cons.mpr ⟨?_, so.apart⟩, ?_, ?_, ?_, ?_⟩
      · rintro a (_ | ⟨_, mem⟩)
        · exact beyond
        · exact Nat.le_trans (first a mem) (Nat.le_trans in2 beyond)
      · rintro a (_ | ⟨_, mem⟩)
        · exact fits
        · exact so.within a mem
      · rintro a (_ | ⟨_, mem⟩)
        · exact ⟨s, List.mem_append_right _ (List.mem_singleton_self s), rfl⟩
        · obtain ⟨b, known, same⟩ := so.behind a mem
          exact ⟨b, List.mem_append_left _ known, same⟩
      · intro a mem
        rcases List.mem_append.mp mem with old | new
        · obtain ⟨b, mem, covered⟩ := so.covers a old
          exact ⟨b, List.mem_cons_of_mem s mem, covered⟩
        · rw [List.mem_singleton.mp new]
          exact ⟨s, List.mem_cons_self, Nat.le_refl _, Nat.le_refl _⟩
      · rintro a (_ | ⟨_, mem⟩) i begins ends
        · exact ⟨s, List.mem_append_right _ (List.mem_singleton_self s), Nat.le_refl _, begins, ends, Nat.le_refl _⟩
        · exact filled a mem i begins ends

theorem Merged.run {n : Nat} {seen : List Span} (so : Merged n seen ms)
    (sorted : (seen ++ spans).Pairwise fun a b => a.start ≤ b.start)
    (fits : ∀ s ∈ spans, s.start < n ∧ s.start ≤ s.stop ∧ s.stop ≤ n) :
    Merged n (seen ++ spans) (spans.foldl merge ms) := by
  induction spans generalizing seen ms with
  | nil => rwa [List.append_nil]
  | cons s spans ih =>
    have later := (List.pairwise_append.mp sorted).2.2
    have next := so.step (fun a mem => later a mem s List.mem_cons_self) (fits s List.mem_cons_self)
    rw [List.append_cons] at sorted ⊢
    exact ih next sorted fun a mem => fits a (List.mem_cons_of_mem s mem)

/-- The merged spans of a text. -/
theorem merged_spec : Merged t.length (spansFrom secrets 0 t) (merged secrets t).reverse := by
  have start : Merged t.length [] [] := ⟨.nil, nofun, nofun, nofun, nofun⟩
  have sorted : ([] ++ spansFrom secrets 0 t).Pairwise fun a b : Span => a.start ≤ b.start := spansFrom_sorted
  rw [merged, List.reverse_reverse]
  exact start.run sorted fun s mem => span_bounds mem

/-- Where no match crosses, the merged spans of a text are those of its two parts. -/
theorem merged_append (closed : Closed secrets x y) :
    merged secrets (x ++ y) = merged secrets x ++ (merged secrets y).map (Span.shift x.length) := by
  have before : ∀ m ∈ (spansFrom secrets 0 x).foldl merge [], ∀ s ∈ (spansFrom secrets 0 y).map (Span.shift x.length),
      m.stop ≤ s.start := by
    intro m mem s member
    obtain ⟨a, _, rfl⟩ := List.mem_map.mp member
    have ends := (merged_spec.within m (by rwa [merged, List.reverse_reverse])).2.2
    exact Nat.le_trans ends (Nat.le_add_left _ _)
  rw [merged, spansFrom_append closed, spansFrom_shift, List.foldl_append]
  have apart : _ = ((spansFrom secrets 0 y).map (Span.shift x.length)).foldl merge [] ++ _ := foldl_merge_append before
  rw [List.nil_append] at apart
  rw [apart, List.reverse_append, merged, merged, ← List.map_nil (f := Span.shift x.length), foldl_merge_shift,
    List.map_nil, List.map_reverse]

/-! ## Masking -/

/-- A slice of the first of two texts. -/
theorem slice_front (inside : i + j ≤ x.length) : ((x ++ y).drop i).take j = (x.drop i).take j := by
  rw [List.drop_append_of_le_length (by omega), List.take_append_of_le_length (by rw [List.length_drop]; omega)]

/-- A slice of the second of two texts. -/
theorem slice_back : ((x ++ y).drop (i + x.length)).take j = (y.drop i).take j := by
  rw [Nat.add_comm, List.drop_length_add_append]

/-- A slice that begins in the first of two texts and goes on in the second. -/
theorem slice_both (begins : i ≤ x.length) :
    ((x ++ y).drop i).take (j + x.length - i) = (x.drop i).take (x.length - i) ++ y.take j := by
  have whole : (x.drop i).length = x.length - i := List.length_drop
  have past : j + x.length - i = (x.drop i).length + j := by omega
  rw [List.drop_append_of_le_length begins, past, List.take_length_add_append, ← whole, List.take_length]

/-- Up to the end of the first text, only what is in it counts. -/
theorem mask_front (inside : ∀ a ∈ as, a.start < x.length ∧ a.stop ≤ x.length) (beyond : ∀ b ∈ bs, x.length ≤ b.start)
    (so : i ≤ x.length) : mask (x ++ y) x.length (as ++ bs) i = mask x x.length as i := by
  induction as generalizing i with
  | nil =>
    cases bs with
    | nil => rw [List.append_nil, mask, mask, slice_front (by omega)]
    | cons b bs => rw [List.nil_append, mask, mask, if_pos (beyond b List.mem_cons_self), slice_front (by omega)]
  | cons a as ih =>
    obtain ⟨begins, ends⟩ := inside a List.mem_cons_self
    rw [List.cons_append, mask, mask, if_neg (Nat.not_le.mpr begins), if_neg (Nat.not_le.mpr begins),
      ih (fun b mem => inside b (List.mem_cons_of_mem a mem)) ends, slice_front (by omega)]

theorem mask_back : mask (x ++ y) (cut + x.length) (bs.map (Span.shift x.length)) (i + x.length) =
    ((mask y cut bs i).1, (mask y cut bs i).2.1 + x.length, (mask y cut bs i).2.2) := by
  have cancel (a b : Nat) : a + x.length - (b + x.length) = a - b := Nat.add_sub_add_right a x.length b
  have greater : max (cut + x.length) (i + x.length) = max cut i + x.length := Nat.add_max_add_right cut i x.length
  induction bs generalizing i with
  | nil => rw [List.map_nil, mask, mask, slice_back, cancel, greater]
  | cons b bs ih =>
    rw [List.map_cons, mask, mask]
    simp only [Span.shift, ge_iff_le, Nat.add_le_add_iff_right]
    split
    · rw [slice_back, cancel, greater]
    · have next := ih (i := b.stop) (Nat.add_max_add_right cut b.stop x.length)
      rw [next, slice_back, cancel]

/-- Spans in two texts are masked each in its own. -/
theorem mask_append (inside : ∀ a ∈ as, a.start < x.length ∧ a.stop ≤ x.length) (begins : ∀ b ∈ bs, b.start < y.length)
    (so : i ≤ x.length) :
    let masks := mask (x ++ y) (x ++ y).length (as ++ bs.map (Span.shift x.length)) i
    masks.1 = (mask x x.length as i).1 ++ (mask y y.length bs 0).1 ∧
      masks.2.2 = (mask x x.length as i).2.2 + (mask y y.length bs 0).2.2 := by
  have ends : (x ++ y).length = y.length + x.length := by rw [List.length_append, Nat.add_comm]
  dsimp only
  induction as generalizing i with
  | nil =>
    cases bs with
    | nil =>
      rw [List.map_nil, List.nil_append, mask, mask, mask, ends, slice_both so]
      exact ⟨rfl, rfl⟩
    | cons b bs =>
      have here := begins b List.mem_cons_self
      have rest : mask (x ++ y) (y.length + x.length) (bs.map (Span.shift x.length)) (b.stop + x.length) = _ := mask_back
      rw [List.map_cons, List.nil_append, mask, mask, mask, ends]
      simp only [Span.shift, ge_iff_le, Nat.add_le_add_iff_right]
      rw [if_neg (Nat.not_le.mpr here), if_neg (Nat.not_le.mpr here)]
      rw [rest, slice_both so]
      simp
  | cons a as ih =>
    obtain ⟨starts, stops⟩ := inside a List.mem_cons_self
    have rest := ih (fun b mem => inside b (List.mem_cons_of_mem a mem)) stops
    have notYet : ¬ a.start ≥ (x ++ y).length := by rw [ends]; omega
    rw [List.cons_append, mask, mask, if_neg notYet, if_neg (Nat.not_le.mpr starts)]
    dsimp only
    rw [rest.1, rest.2, slice_front (by omega)]
    simp [Nat.add_right_comm]

/-! ## What is held back -/

/-- Where the rest of the text is a proper start of a secret, it is held back. -/
theorem held_before {v : Text × String} (known : v ∈ secrets) (inside : j < t.length) (begins : t.drop j <+: v.1)
    (proper : (t.drop j).length < v.1.length) : ∃ h, heldFrom secrets i t = some h ∧ h ≤ i + j := by
  induction t generalizing i j with
  | nil => cases inside
  | cons c t ih =>
    rw [heldFrom]
    split
    next here => exact ⟨i, rfl, Nat.le_add_right i j⟩
    next notHere =>
      cases j with
      | zero =>
        exfalso
        refine notHere (List.any_eq_true.mpr ⟨v, known, ?_⟩)
        exact Bool.and_eq_true_iff.mpr ⟨decide_eq_true proper, List.isPrefixOf_iff_prefix.mpr begins⟩
      | succ j =>
        obtain ⟨h, held, early⟩ := ih (i := i + 1) (Nat.lt_of_succ_lt_succ inside) begins proper
        exact ⟨h, held, by omega⟩

theorem held_inside (held : heldFrom secrets i t = some j) : j ≤ i + t.length := by
  induction t generalizing i with
  | nil => cases held
  | cons c t ih =>
    rw [heldFrom] at held
    split at held
    · cases held
      exact Nat.le_add_right _ _
    · have := ih held
      rw [List.length_cons]
      omega

/-- The cut, moved to the start of a span that reaches across it. -/
def moveCut (cut : Nat) (s : Span) : Nat := if s.start < cut ∧ cut < s.stop then s.start else cut

theorem moveCut_le : moveCut cut s ≤ cut := by
  unfold moveCut
  split <;> omega

theorem foldl_moveCut_le : spans.foldl moveCut cut ≤ cut := by
  induction spans generalizing cut with
  | nil => exact Nat.le_refl cut
  | cons s spans ih => exact Nat.le_trans ih moveCut_le

/-- The cut only moves to the start of a span. -/
theorem le_foldl_moveCut (so : k ≤ cut) (behind : ∀ s ∈ spans, k ≤ s.start) : k ≤ spans.foldl moveCut cut := by
  induction spans generalizing cut with
  | nil => exact so
  | cons s spans ih =>
    refine ih ?_ fun a mem => behind a (List.mem_cons_of_mem s mem)
    unfold moveCut
    split
    · exact behind s List.mem_cons_self
    · exact so

/-- No span reaches across the cut in the end. -/
theorem foldl_moveCut_clear (apart : spans.Pairwise fun a b => a.stop ≤ b.start) (so : ∀ s ∈ spans, s.start ≤ s.stop) :
    ∀ s ∈ spans, s.stop ≤ spans.foldl moveCut cut ∨ spans.foldl moveCut cut ≤ s.start := by
  induction spans generalizing cut with
  | nil => nofun
  | cons s spans ih =>
    obtain ⟨first, rest⟩ := List.pairwise_cons.mp apart
    have ordered := so s List.mem_cons_self
    rintro a (_ | ⟨_, mem⟩)
    · rw [List.foldl_cons]
      rcases Nat.lt_or_ge s.start cut with starts | starts
      · rcases Nat.lt_or_ge cut s.stop with across | ends
        · have moved : moveCut cut s = s.start := if_pos ⟨starts, across⟩
          rw [moved]
          exact .inr foldl_moveCut_le
        · have stays : moveCut cut s = cut := if_neg fun both => Nat.not_lt.mpr ends both.2
          rw [stays]
          exact .inl (le_foldl_moveCut ends first)
      · exact .inr (Nat.le_trans foldl_moveCut_le (Nat.le_trans moveCut_le starts))
    · exact ih rest (fun b member => so b (List.mem_cons_of_mem s member)) a mem

/-! ## One step -/

/-- Where the step cuts the text in `t`. -/
def cutOf (secrets : List (Text × String)) (t : Text) : Nat :=
  (merged secrets t).foldl moveCut ((heldFrom secrets 0 t).getD t.length)

theorem cutOf_le : cutOf secrets t ≤ t.length := by
  refine Nat.le_trans foldl_moveCut_le ?_
  cases held : heldFrom secrets 0 t with
  | none => exact Nat.le_refl _
  | some h =>
    have := held_inside held
    simpa using this

/-- No merged span reaches across the cut. -/
theorem cutOf_clear (mem : m ∈ merged secrets t) : m.stop ≤ cutOf secrets t ∨ cutOf secrets t ≤ m.start := by
  have spec : Merged t.length (spansFrom secrets 0 t) (merged secrets t).reverse := merged_spec
  have apart := List.pairwise_reverse.mp spec.apart
  exact foldl_moveCut_clear apart (fun s known => (spec.within s (List.mem_reverse.mpr known)).2.1) m mem

/-- No match that begins before the cut reaches behind it, whatever follows. -/
theorem closed_cut : Closed secrets (t.take (cutOf secrets t)) (t.drop (cutOf secrets t) ++ f) := by
  intro u some suffix v known begins
  obtain ⟨w, whole⟩ := suffix
  have short : w.length < cutOf secrets t ∧ w.length + u.length = cutOf secrets t := by
    have sizes := congrArg List.length whole
    have positive := List.length_pos_iff.mpr some
    rw [List.length_append, List.length_take, Nat.min_eq_left cutOf_le] at sizes
    omega
  have inText : w.length < t.length := Nat.lt_of_lt_of_le short.1 cutOf_le
  have rest : t.drop w.length = u ++ t.drop (cutOf secrets t) := by
    have parts : t = w ++ (u ++ t.drop (cutOf secrets t)) := by
      rw [← List.append_assoc, whole, List.take_append_drop]
    have dropped := congrArg (List.drop w.length) parts
    rwa [List.drop_left] at dropped
  rw [← List.append_assoc, ← rest] at begins
  rcases Nat.lt_or_ge (t.drop w.length).length v.1.length with longer | fits
  · -- The text ends before the secret does, so it is held back from here on.
    have proper : t.drop w.length <+: v.1 :=
      List.prefix_of_prefix_length_le (List.prefix_append _ f) begins (Nat.le_of_lt longer)
    obtain ⟨h, held, early⟩ := held_before (i := 0) known inText proper longer
    have cut : cutOf secrets t ≤ h := by
      unfold cutOf
      rw [held]
      exact foldl_moveCut_le
    omega
  · -- The match is in the text, so a merged span has it.
    have here := List.prefix_of_prefix_length_le begins (List.prefix_append _ f) fits
    have found := (mem_spansFrom (i := 0)).mpr ⟨w.length, inText, v, known, here, rfl⟩
    obtain ⟨m, mem, before, stops⟩ := merged_spec.covers _ found
    rcases cutOf_clear (List.mem_reverse.mp mem) with ends | starts
    · refine List.prefix_of_prefix_length_le here (rest ▸ List.prefix_append u _) ?_
      dsimp only at stops
      omega
    · dsimp only at before
      omega

/-- Masking uses the text up to the cut. -/
theorem mask_used (inside : ∀ s ∈ spans, s.stop ≤ cut) (so : i ≤ cut) : (mask t cut spans i).2.1 = cut := by
  induction spans generalizing i with
  | nil => exact Nat.max_eq_left so
  | cons s spans ih =>
    rw [mask]
    split
    · exact Nat.max_eq_left so
    · exact ih (fun a mem => inside a (List.mem_cons_of_mem s mem)) (inside s List.mem_cons_self)

theorem merged_bounds (mem : m ∈ merged secrets t) : m.start < t.length ∧ m.start ≤ m.stop ∧ m.stop ≤ t.length :=
  merged_spec.within m (List.mem_reverse.mpr mem)

theorem redacted_used : (mask t t.length (merged secrets t) 0).2.1 = t.length :=
  mask_used (fun _ mem => (merged_bounds mem).2.2) (Nat.zero_le _)

theorem spansFrom_none : spansFrom [] i t = [] := by
  induction t generalizing i with
  | nil => rfl
  | cons c t ih => rw [spansFrom_cons, ih, List.filterMap_nil, List.append_nil]

theorem redacted_none : redacted [] t = (t, 0) := by
  have unmatched : merged [] t = [] := by rw [merged, spansFrom_none, List.foldl_nil, List.reverse_nil]
  rw [redacted, unmatched, mask, List.drop_zero, Nat.sub_zero, List.take_length]

/-- The step masks the text before the cut as if it were the whole text. -/
theorem mask_cut : mask t (cutOf secrets t) (merged secrets t) 0 =
    ((redacted secrets (t.take (cutOf secrets t))).1, cutOf secrets t,
      (redacted secrets (t.take (cutOf secrets t))).2) := by
  generalize front : t.take (cutOf secrets t) = x
  generalize back : t.drop (cutOf secrets t) = y
  have parts : x ++ y = t := by rw [← front, ← back, List.take_append_drop]
  have size : x.length = cutOf secrets t := by rw [← front, List.length_take, Nat.min_eq_left cutOf_le]
  have closed : Closed secrets x y := by
    have all : Closed secrets (t.take (cutOf secrets t)) (t.drop (cutOf secrets t) ++ []) := closed_cut
    rwa [front, back, List.append_nil] at all
  have spans := merged_append closed
  have beyond : ∀ b ∈ (merged secrets y).map (Span.shift x.length), x.length ≤ b.start := by
    intro b mem
    obtain ⟨a, _, rfl⟩ := List.mem_map.mp mem
    exact Nat.le_add_left _ _
  have masks : mask (x ++ y) x.length _ 0 = mask x x.length (merged secrets x) 0 :=
    mask_front (fun a mem => ⟨(merged_bounds mem).1, (merged_bounds mem).2.2⟩) beyond (Nat.zero_le _)
  have used : (mask x x.length (merged secrets x) 0).2.1 = x.length := redacted_used
  rw [← spans, parts] at masks
  rw [← size, masks, redacted]
  exact Prod.ext rfl (Prod.ext used rfl)

variable {r : Redactor} {pending chunk : Text} {chunks : List Text}

/-- The last step redacts all that is left. -/
theorem scan_finish (works : r.fail = false) :
    r.scan pending chunk true = .ok (redacted r.secrets (pending ++ chunk), []) := by
  rw [scan, if_neg (by rw [works]; exact Bool.false_ne_true)]
  dsimp only
  split
  next empty =>
    rw [List.isEmpty_iff.mp empty, redacted_none]
  · rw [if_pos rfl]
    change Except.ok (_, List.drop (mask _ _ (merged _ _) 0).2.1 _) = _
    rw [redacted_used, List.drop_length]
    rfl

theorem cutOf_none : cutOf [] t = t.length := by
  have unheld : ∀ i, heldFrom [] i t = .none := by
    induction t with
    | nil => exact fun _ => rfl
    | cons c t ih => exact fun i => ih (i + 1)
  have unmatched : merged [] t = [] := by rw [merged, spansFrom_none, List.foldl_nil, List.reverse_nil]
  rw [cutOf, unheld, unmatched]
  rfl

/-- A step redacts its text up to the cut, and holds back the rest. -/
theorem scan_cut (works : r.fail = false) : r.scan pending chunk false =
    .ok (redacted r.secrets ((pending ++ chunk).take (cutOf r.secrets (pending ++ chunk))),
      (pending ++ chunk).drop (cutOf r.secrets (pending ++ chunk))) := by
  rw [scan, if_neg (by rw [works]; exact Bool.false_ne_true)]
  dsimp only
  split
  next empty =>
    rw [List.isEmpty_iff.mp empty, cutOf_none, List.take_length, List.drop_length, redacted_none]
  · change Except.ok (((mask _ (cutOf r.secrets _) (merged _ _) 0).1, (mask _ (cutOf r.secrets _) (merged _ _) 0).2.2),
      List.drop (mask _ (cutOf r.secrets _) (merged _ _) 0).2.1 _) = _
    rw [mask_cut]

/-- A step redacts the front of its text for itself, and the rest is held back. No match reaches out of the front. -/
theorem scan_step (works : r.fail = false) : ∃ x y, pending ++ chunk = x ++ y ∧
    r.scan pending chunk false = .ok (redacted r.secrets x, y) ∧ ∀ f, Closed r.secrets x (y ++ f) :=
  ⟨_, _, (List.take_append_drop (cutOf r.secrets (pending ++ chunk)) _).symm, scan_cut works, fun _ => closed_cut⟩

/-! ## The cut of a longer text -/

theorem heldFrom_shift : heldFrom secrets (i + k) t = (heldFrom secrets i t).map (· + k) := by
  induction t generalizing i with
  | nil => rfl
  | cons c t ih =>
    rw [heldFrom, heldFrom]
    split
    · rfl
    · rw [← ih]
      congr 1
      omega

/-- A text is held back from no place where the text that follows is not the proper start of a secret. -/
theorem heldFrom_behind (clear : ∀ u, u ≠ [] → u <:+ x → ∀ v ∈ secrets, u ++ y <+: v.1 → v.1.length ≤ (u ++ y).length) :
    heldFrom secrets i (x ++ y) = heldFrom secrets (i + x.length) y := by
  induction x generalizing i with
  | nil => rfl
  | cons c x ih =>
    rw [List.cons_append, heldFrom]
    split
    next here =>
      obtain ⟨v, known, held⟩ := List.any_eq_true.mp here
      obtain ⟨longer, begins⟩ := Bool.and_eq_true_iff.mp held
      have fits := clear (c :: x) (List.cons_ne_nil c x) List.suffix_rfl v known (List.isPrefixOf_iff_prefix.mp begins)
      exact absurd (of_decide_eq_true longer) (Nat.not_lt.mpr fits)
    next =>
      rw [ih fun u filled suffix => clear u filled (suffix.trans (List.suffix_cons c x)), List.length_cons]
      congr 1
      omega

theorem moveCut_shift : moveCut (cut + k) (s.shift k) = moveCut cut s + k := by
  simp only [moveCut, Span.shift, Nat.add_lt_add_iff_right]
  split <;> rfl

theorem foldl_moveCut_shift :
    (spans.map (Span.shift k)).foldl moveCut (cut + k) = spans.foldl moveCut cut + k := by
  induction spans generalizing cut with
  | nil => rfl
  | cons s spans ih => rw [List.map_cons, List.foldl_cons, moveCut_shift, ih, List.foldl_cons]

/-- Spans that end before the cut do not move it. -/
theorem foldl_moveCut_past (past : ∀ s ∈ spans, s.stop ≤ cut) : spans.foldl moveCut cut = cut := by
  induction spans with
  | nil => rfl
  | cons s spans ih =>
    have stays : moveCut cut s = cut := if_neg fun both => Nat.not_lt.mpr (past s List.mem_cons_self) both.2
    rw [List.foldl_cons, stays, ih fun a mem => past a (List.mem_cons_of_mem s mem)]

/-- What was shown of a text stays cut off: the cut of a longer text is the cut of what was held back, further on. -/
theorem cutOf_append : cutOf secrets (t ++ f) = cutOf secrets t + cutOf secrets (t.drop (cutOf secrets t) ++ f) := by
  have size : (t.take (cutOf secrets t)).length = cutOf secrets t := by
    rw [List.length_take, Nat.min_eq_left cutOf_le]
  have closed : Closed secrets (t.take (cutOf secrets t)) (t.drop (cutOf secrets t) ++ f) := closed_cut
  have held : heldFrom secrets 0 (t.take (cutOf secrets t) ++ (t.drop (cutOf secrets t) ++ f)) =
      (heldFrom secrets 0 (t.drop (cutOf secrets t) ++ f)).map (· + cutOf secrets t) := by
    rw [← heldFrom_shift, heldFrom_behind, size]
    intro u filled suffix v known begins
    obtain ⟨w, whole⟩ := suffix
    have sizes := congrArg List.length whole
    have positive := List.length_pos_iff.mpr filled
    rw [List.length_append, size] at sizes
    have rest : t.drop w.length = u ++ t.drop (cutOf secrets t) := by
      have parts : t = w ++ (u ++ t.drop (cutOf secrets t)) := by
        rw [← List.append_assoc, whole, List.take_append_drop]
      have dropped := congrArg (List.drop w.length) parts
      rwa [List.drop_left] at dropped
    rw [← List.append_assoc, ← rest] at begins ⊢
    rcases Nat.lt_or_ge (t.drop w.length ++ f).length v.1.length with longer | fits
    · exfalso
      have inText : w.length < t.length := Nat.lt_of_lt_of_le (by omega) (@cutOf_le secrets t)
      have shorter : (t.drop w.length).length < v.1.length :=
        Nat.lt_of_le_of_lt (by rw [List.length_append]; omega) longer
      obtain ⟨h, found, early⟩ :=
        held_before (i := 0) known inText ((List.prefix_append _ f).trans begins) shorter
      have most : cutOf secrets t ≤ h := by
        unfold cutOf
        rw [found]
        exact foldl_moveCut_le
      omega
    · exact fits
  have whole : t.take (cutOf secrets t) ++ (t.drop (cutOf secrets t) ++ f) = t ++ f := by
    rw [← List.append_assoc, List.take_append_drop]
  have inside : ∀ m ∈ merged secrets (t.take (cutOf secrets t)), m.stop ≤ cutOf secrets t := fun m mem =>
    size ▸ (merged_bounds mem).2.2
  have start : (heldFrom secrets 0 (t ++ f)).getD (t ++ f).length =
      (heldFrom secrets 0 (t.drop (cutOf secrets t) ++ f)).getD (t.drop (cutOf secrets t) ++ f).length +
        cutOf secrets t := by
    rw [← whole, held, List.length_append, size]
    cases heldFrom secrets 0 (t.drop (cutOf secrets t) ++ f) with
    | none => exact Nat.add_comm _ _
    | some h => rfl
  have spans : merged secrets (t ++ f) = merged secrets (t.take (cutOf secrets t)) ++
      (merged secrets (t.drop (cutOf secrets t) ++ f)).map (Span.shift (cutOf secrets t)) := by
    rw [← whole, merged_append closed, size]
  calc cutOf secrets (t ++ f)
    _ = (merged secrets (t ++ f)).foldl moveCut ((heldFrom secrets 0 (t ++ f)).getD (t ++ f).length) := rfl
    _ = cutOf secrets (t.drop (cutOf secrets t) ++ f) + cutOf secrets t := by
      rw [start, spans, List.foldl_append,
        foldl_moveCut_past fun m mem => Nat.le_trans (inside m mem) (Nat.le_add_left _ _), foldl_moveCut_shift]
      rfl
    _ = cutOf secrets t + cutOf secrets (t.drop (cutOf secrets t) ++ f) := Nat.add_comm _ _

/-! ## A whole stream -/

/-- Texts that no match joins are redacted each for itself. -/
theorem redacted_append (closed : Closed secrets x y) : redacted secrets (x ++ y) =
    ((redacted secrets x).1 ++ (redacted secrets y).1, (redacted secrets x).2 + (redacted secrets y).2) := by
  have masks := mask_append (i := 0)
    (fun a (mem : a ∈ merged secrets x) => ⟨(merged_bounds mem).1, (merged_bounds mem).2.2⟩)
    (fun b (mem : b ∈ merged secrets y) => (merged_bounds mem).1) (Nat.zero_le _)
  dsimp only at masks
  rw [redacted, merged_append closed]
  exact Prod.ext masks.1 masks.2

/-- What a working redactor emits for a stream is what it makes of the whole text. -/
theorem stream_eq (works : r.fail = false) :
    r.stream pending chunks = .ok (redacted r.secrets (pending ++ chunks.flatten)) := by
  induction chunks generalizing pending with
  | nil =>
    rw [stream, scan_finish works, List.flatten_nil]
    rfl
  | cons c cs ih =>
    obtain ⟨x, y, parts, step, closed⟩ : ∃ x y, pending ++ c = x ++ y ∧ _ ∧ _ := scan_step works
    rw [stream, step]
    change (r.stream y cs).bind _ = _
    rw [ih, List.flatten_cons, ← List.append_assoc, parts, List.append_assoc, redacted_append (closed _)]
    rfl

/-! ## What is masked -/

theorem pieces_shown (inside : ∀ s ∈ spans, s.start < t.length) :
    (mask t t.length spans i).1 = (pieces t spans i).flatMap Piece.shown := by
  induction spans generalizing i with
  | nil =>
    have all : t.length - i = (t.drop i).length := List.length_drop.symm
    rw [mask, pieces, all, List.take_length]
    exact (List.append_nil _).symm
  | cons s ss ih =>
    rw [mask, if_neg (Nat.not_le.mpr (inside s List.mem_cons_self))]
    dsimp only
    rw [ih fun a mem => inside a (List.mem_cons_of_mem s mem), pieces, List.flatMap_cons, List.flatMap_cons,
      ← List.append_assoc]
    rfl

theorem drop_slice (so : i ≤ j) : (t.drop i).take (j - i) ++ t.drop j = t.drop i := by
  have further : t.drop j = (t.drop i).drop (j - i) := by rw [List.drop_drop, Nat.add_sub_cancel' so]
  rw [further, List.take_append_drop]

/-- Spans one behind the other, all from `i` on. -/
def Ordered : List Span → Nat → Prop
  | [], _ => True
  | s :: ss, i => i ≤ s.start ∧ s.start ≤ s.stop ∧ Ordered ss s.stop

theorem pieces_raw (so : Ordered spans i) : (pieces t spans i).flatMap Piece.raw = t.drop i := by
  induction spans generalizing i with
  | nil => exact List.append_nil _
  | cons s ss ih =>
    obtain ⟨begins, ends, rest⟩ := so
    rw [pieces, List.flatMap_cons, List.flatMap_cons, ih rest]
    rw [Piece.raw, Piece.raw, drop_slice ends, drop_slice begins]

theorem take_slice (so : i ≤ j) : t.take i ++ (t.drop i).take (j - i) = t.take j := by
  rw [← List.take_add, Nat.add_sub_cancel' so]

/-- Each span is a masked piece. -/
theorem pieces_masked (so : Ordered spans i) (mem : m ∈ spans) : ∃ before after,
    pieces t spans i = before ++ .masked ((t.drop m.start).take (m.stop - m.start)) m.names :: after ∧
      t.take i ++ before.flatMap Piece.raw = t.take m.start ∧ after.flatMap Piece.raw = t.drop m.stop := by
  induction spans generalizing i with
  | nil => cases mem
  | cons s ss ih =>
    obtain ⟨begins, ends, rest⟩ := so
    rcases List.mem_cons.mp mem with rfl | mem
    · refine ⟨[.plain ((t.drop i).take (m.start - i))], pieces t ss m.stop, rfl, ?_, pieces_raw rest⟩
      rw [List.flatMap_cons, List.flatMap_nil, List.append_nil, Piece.raw, take_slice begins]
    · obtain ⟨before, after, whole, front, back⟩ := ih rest mem
      refine ⟨.plain ((t.drop i).take (s.start - i)) :: .masked ((t.drop s.start).take (s.stop - s.start)) s.names ::
        before, after, by rw [pieces, whole]; rfl, ?_, back⟩
      rw [List.flatMap_cons, List.flatMap_cons, Piece.raw, Piece.raw, ← List.append_assoc, take_slice begins,
        ← List.append_assoc, take_slice ends, front]

theorem merged_ordered (apart : spans.Pairwise fun a b => a.stop ≤ b.start)
    (so : ∀ s ∈ spans, i ≤ s.start ∧ s.start ≤ s.stop) : Ordered spans i := by
  induction spans generalizing i with
  | nil => trivial
  | cons s ss ih =>
    obtain ⟨first, rest⟩ := List.pairwise_cons.mp apart
    obtain ⟨begins, ends⟩ := so s List.mem_cons_self
    exact ⟨begins, ends, ih rest fun a mem => ⟨first a mem, (so a (List.mem_cons_of_mem s mem)).2⟩⟩

theorem pieces_merged : Ordered (merged secrets t) 0 :=
  merged_ordered (List.pairwise_reverse.mp merged_spec.apart) fun _ mem => ⟨Nat.zero_le _, (merged_bounds mem).2.1⟩

/-- The pieces of a redacted text mask each secret wherever it occurs. -/
theorem pieces_masks {v : Text × String} (known : v ∈ secrets) (some : v.1 ≠ []) :
    Masks (pieces t (merged secrets t) 0) v.1 := by
  intro a b occurs
  rw [pieces_raw pieces_merged, List.drop_zero] at occurs
  have size : t.length = a.length + v.1.length + b.length := by rw [occurs, List.length_append, List.length_append]
  have positive := List.length_pos_iff.mpr some
  have here : t.drop a.length = v.1 ++ b := by rw [occurs, List.append_assoc, List.drop_left]
  have found := (mem_spansFrom (i := 0)).mpr ⟨a.length, by omega, v, known, here ▸ List.prefix_append _ b, rfl⟩
  obtain ⟨m, mem, before, stops⟩ := merged_spec.covers _ found
  have mem := List.mem_reverse.mp mem
  dsimp only at before stops
  rw [Nat.zero_add] at before stops
  obtain ⟨front, back, whole, raws, rest⟩ := pieces_masked pieces_merged mem
  refine ⟨front, _, m.names, back, a.drop m.start, b.take (m.stop - (a.length + v.1.length)), whole, ?_, ?_, ?_⟩
  · rw [List.take_zero, List.nil_append] at raws
    rw [raws, occurs, List.append_assoc, List.take_append_of_le_length before, List.take_append_drop]
  · have upTo : m.stop - m.start =
        (a.drop m.start ++ v.1).length + (m.stop - (a.length + v.1.length)) := by
      rw [List.length_append, List.length_drop]
      omega
    rw [upTo, occurs, List.append_assoc, List.drop_append_of_le_length before, ← List.append_assoc,
      List.take_length_add_append]
  · have past : m.stop = (a ++ v.1).length + (m.stop - (a.length + v.1.length)) := by
      rw [List.length_append]
      omega
    have behind : t.drop m.stop = b.drop (m.stop - (a.length + v.1.length)) := by
      rw [past, occurs, List.drop_length_add_append, ← past]
    rw [rest, behind, List.take_append_drop]

theorem pieces_mem {text : Text} {names : List String} (mem : .masked text names ∈ pieces t spans i) :
    ∃ m ∈ spans, text = (t.drop m.start).take (m.stop - m.start) := by
  induction spans generalizing i with
  | nil =>
    rw [pieces, List.mem_singleton] at mem
    cases mem
  | cons s ss ih =>
    rw [pieces] at mem
    rcases mem with _ | ⟨_, _ | ⟨_, mem⟩⟩
    · exact ⟨s, List.mem_cons_self, rfl⟩
    · obtain ⟨m, known, same⟩ := ih mem
      exact ⟨m, List.mem_cons_of_mem s known, same⟩

/-- Nothing but secrets is masked. -/
theorem pieces_ofSecrets {text : Text} {names : List String}
    (mem : .masked text names ∈ pieces t (merged secrets t) 0) : OfSecrets secrets text := by
  obtain ⟨m, known, rfl⟩ := pieces_mem mem
  intro i inside
  have bounds := merged_bounds known
  rw [List.length_take, List.length_drop] at inside
  obtain ⟨s, found, least, begins, ends, most⟩ :=
    merged_spec.filled m (List.mem_reverse.mpr known) (m.start + i) (Nat.le_add_right _ _) (by omega)
  obtain ⟨j, _, v, secret, here, rfl⟩ := mem_spansFrom.mp found
  dsimp only at least begins ends most
  rw [Nat.zero_add] at least begins ends most
  obtain ⟨rest, here⟩ := here
  refine ⟨v, secret, (t.drop m.start).take (j - m.start), rest.take (m.stop - (j + v.1.length)), ?_, ?_, ?_⟩
  · have upTo : m.stop - m.start = (j - m.start) + (v.1.length + (m.stop - (j + v.1.length))) := by omega
    have behind : (t.drop m.start).drop (j - m.start) = v.1 ++ rest := by
      rw [List.drop_drop, Nat.add_sub_cancel' least, here]
    rw [upTo, List.take_add, behind, List.take_length_add_append, List.append_assoc]
  · rw [List.length_take, List.length_drop]
    omega
  · rw [List.length_take, List.length_drop]
    omega

theorem marker_opens (names : List String) : '[' ∈ marker names := by
  have opens : "[REDACTED:".toList = '[' :: "REDACTED:".toList := by decide
  rw [marker]
  dsimp only [toString]
  rw [String.toList_append, String.toList_append, opens]
  exact List.mem_append_left _ (List.mem_append_left _ List.mem_cons_self)

/-! ## Two texts that no secret joins -/

theorem Closed.suffix {w : Text} (closed : Closed secrets (w ++ x) y) : Closed secrets x y :=
  fun u some suffix => closed u some (suffix.trans (List.suffix_append w x))

theorem Closed.front {z : Text} (closed : Closed secrets x y) (front : z <+: y) : Closed secrets x z :=
  fun u some suffix v known begins => closed u some suffix v known
    (begins.trans ((List.prefix_append_right_inj u).mpr front))

theorem closed_nil : Closed secrets [] y := fun _ some suffix => absurd (List.suffix_nil.mp suffix) some

theorem closed_cons {c : Char} : Closed secrets (c :: x) y ↔
    (∀ s ∈ secrets, s.1 <+: c :: (x ++ y) → s.1 <+: c :: x) ∧ Closed secrets x y := by
  constructor
  · intro closed
    exact ⟨closed (c :: x) (List.cons_ne_nil c x) List.suffix_rfl, Closed.suffix (w := [c]) closed⟩
  · rintro ⟨here, rest⟩ u some suffix
    rcases List.suffix_cons_iff.mp suffix with rfl | suffix
    · exact here
    · exact rest u some suffix

/-- Pieces of two texts that no secret joins mask each secret wherever it occurs in the two. -/
theorem masks_append {ps qs : List Piece} {v : Text × String} (known : v ∈ secrets)
    (closed : Closed secrets (ps.flatMap Piece.raw) (qs.flatMap Piece.raw)) (first : Masks ps v.1)
    (second : Masks qs v.1) : Masks (ps ++ qs) v.1 := by
  intro a b occurs
  rw [List.flatMap_append] at occurs
  have inSecond : ∀ l, a = ps.flatMap Piece.raw ++ l → qs.flatMap Piece.raw = l ++ v.1 ++ b →
      ∃ before text names after l r, ps ++ qs = before ++ .masked text names :: after ∧
        a = before.flatMap Piece.raw ++ l ∧ text = l ++ v.1 ++ r ∧ b = r ++ after.flatMap Piece.raw := by
    rintro l rfl behind
    obtain ⟨before, text, names, after, l', r, rfl, rfl, parts, rfl⟩ := second l b behind
    refine ⟨ps ++ before, text, names, after, l', r, by simp, ?_, parts, rfl⟩
    rw [List.flatMap_append, List.append_assoc]
  rw [List.append_assoc] at occurs
  rcases List.append_eq_append_iff.mp occurs with ⟨l, front, behind⟩ | ⟨u, whole, ahead⟩
  · exact inSecond l front (by rw [behind, List.append_assoc])
  · by_cases none : u = []
    · subst none
      exact inSecond [] (by rw [whole, List.append_nil, List.append_nil])
        (by rw [List.nil_append, ahead, List.nil_append])
    · obtain ⟨rest, parts⟩ := closed u none ⟨a, whole.symm⟩ v known (ahead ▸ List.prefix_append v.1 b)
      have tail : b = rest ++ qs.flatMap Piece.raw := by
        rw [← parts, List.append_assoc] at ahead
        exact List.append_cancel_left ahead
      obtain ⟨before, text, names, after, l, r, rfl, front, inside, rfl⟩ :=
        first a rest (by rw [whole, ← parts, List.append_assoc])
      refine ⟨before, text, names, after ++ qs, l, r, by simp, front, inside, ?_⟩
      rw [tail, List.flatMap_append, List.append_assoc]

theorem dedupFrom_keeps (last : Option Text) {vs : List (Text × String)} {v : Text × String} (mem : v ∈ vs) :
    last = some v.1 ∨ ∃ w ∈ dedupFrom last vs, w.1 = v.1 := by
  induction vs generalizing last with
  | nil => cases mem
  | cons w vs ih =>
    rw [dedupFrom]
    split
    next repeated =>
      rcases List.mem_cons.mp mem with rfl | mem
      · exact .inl repeated
      · exact ih last mem
    next fresh =>
      rcases List.mem_cons.mp mem with rfl | mem
      · exact .inr ⟨v, List.mem_cons_self, rfl⟩
      · rcases ih (some w.1) mem with same | ⟨kept, member, same⟩
        · exact .inr ⟨w, List.mem_cons_self, Option.some.inj same⟩
        · exact .inr ⟨kept, List.mem_cons_of_mem w member, same⟩

/-- A redactor knows every value that is not empty. -/
theorem new_knows {given : List (String × String)} {v : String × String} (mem : v ∈ given) (filled : v.2 ≠ "") :
    ∃ w ∈ (new given).secrets, w.1 = v.2.toList := by
  have sorted : (v.2.toList, v.1) ∈
      ((given.filter fun s => s.2 ≠ "").map fun s => (s.2.toList, s.1)).mergeSort sortsBefore :=
    List.mem_mergeSort.mpr (List.mem_map.mpr ⟨v, List.mem_filter.mpr ⟨mem, decide_eq_true filled⟩, rfl⟩)
  rcases dedupFrom_keeps .none sorted with impossible | kept
  · cases impossible
  · exact kept

/-- However a stream is cut into chunks, the redactor emits what it makes of the whole text, and that is the text with
every occurrence of a value inside a masked piece. -/
theorem stream_redacts (given : List (String × String)) (chunks : List Text) : ∃ ps n,
    (new given).stream [] chunks = .ok (ps.flatMap Piece.shown, n) ∧
    (new given).apply (String.ofList chunks.flatten) = (String.ofList (ps.flatMap Piece.shown), n) ∧
    ps.flatMap Piece.raw = chunks.flatten ∧
    ∀ v ∈ given, v.2 ≠ "" → Masks ps v.2.toList := by
  have works : (new given).fail = false := rfl
  have shown := pieces_shown (i := 0) fun m (mem : m ∈ merged (new given).secrets chunks.flatten) => (merged_bounds mem).1
  refine ⟨pieces chunks.flatten (merged (new given).secrets chunks.flatten) 0,
    (redacted (new given).secrets chunks.flatten).2, ?_, ?_, ?_, ?_⟩
  · rw [stream_eq works, List.nil_append, ← shown]
    rfl
  · rw [apply, scan_finish works, List.nil_append, String.toList_ofList, ← shown]
    rfl
  · rw [pieces_raw pieces_merged, List.drop_zero]
  · intro v mem some
    obtain ⟨w, known, same⟩ := new_knows mem some
    have text : w.1 ≠ [] := by
      rw [same]
      exact fun empty => some (String.toList_eq_nil_iff.mp empty)
    rw [← same]
    exact pieces_masks known text

end

end Redactor

end Harpoon.Deploy
