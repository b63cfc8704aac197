import Harpoon.Git.State

/-!
# Branch filters

What a pattern matches, by recursion on the pattern, and the matcher against it. The matcher looks first whether
a character of the pattern is the character of the text, and only then whether it is a `*`. So a `*` that it comes to
at a `*` of the text takes exactly that character; at any other place it takes any run of characters.

`Matching` is the recursion with the meaning of `*` left open, and holds both.
-/

namespace Harpoon.Git

section

variable (star : List Char → List Char → Prop)

/-- The pattern matches the text, when `*` leaves what `star` says. -/
def Matching : List Char → List Char → Prop
  | [], t => t = []
  | pc :: ps, t =>
    if pc = '*' then ∃ s, star t s ∧ Matching ps s
    else ∃ c s, t = c :: s ∧ (pc = '?' ∨ pc = c) ∧ Matching ps s

end

/-- `*` takes any run of characters. -/
def AnyRun (t s : List Char) : Prop := s <:+ t

/-- `*` takes any run of characters, but where the text has a `*` exactly that. -/
def OwnStar (t s : List Char) : Prop := if t.head? = some '*' then s = t.tail else s <:+ t

/-- What a pattern matches: `*` any run of characters, `?` one character, any other character itself. -/
def GlobMatches (pattern text : String) : Prop := Matching AnyRun pattern.toList text.toList

/-- The pattern matches with each of its `*` that is tried at a `*` of the text taking exactly that character. -/
def MatchesOwnStars (pattern text : String) : Prop := Matching OwnStar pattern.toList text.toList

variable {star star' : List Char → List Char → Prop} {p q ps m s t : List Char} {pc c : Char}

theorem matching_star : Matching star ('*' :: ps) t ↔ ∃ s, star t s ∧ Matching star ps s := by
  rw [Matching, if_pos rfl]

theorem matching_char (other : pc ≠ '*') :
    Matching star (pc :: ps) t ↔ ∃ c s, t = c :: s ∧ (pc = '?' ∨ pc = c) ∧ Matching star ps s := by
  rw [Matching, if_neg other]

theorem matching_char_cons (other : pc ≠ '*') :
    Matching star (pc :: ps) (c :: t) ↔ (pc = '?' ∨ pc = c) ∧ Matching star ps t := by
  rw [matching_char other]
  constructor
  · rintro ⟨c', s, same, fits, rest⟩
    cases same
    exact ⟨fits, rest⟩
  · rintro ⟨fits, rest⟩
    exact ⟨c, t, rfl, fits, rest⟩

theorem Matching.mono (weaker : ∀ t s, star t s → star' t s) (matching : Matching star p t) :
    Matching star' p t := by
  induction p generalizing t with
  | nil => exact matching
  | cons pc ps ih =>
    by_cases isStar : pc = '*'
    · subst isStar
      obtain ⟨s, takes, rest⟩ := matching_star.mp matching
      exact matching_star.mpr ⟨s, weaker t s takes, ih rest⟩
    · obtain ⟨c, s, same, fits, rest⟩ := (matching_char isStar).mp matching
      exact (matching_char isStar).mpr ⟨c, s, same, fits, ih rest⟩

theorem OwnStar.suffix (takes : OwnStar t s) : s <:+ t := by
  unfold OwnStar at takes
  split at takes
  · exact takes ▸ List.tail_suffix t
  · exact takes

theorem ownStar_star : OwnStar ('*' :: t) s ↔ s = t := by
  rw [OwnStar, List.head?_cons, if_pos rfl, List.tail_cons]

theorem ownStar_other (other : c ≠ '*') : OwnStar (c :: t) s ↔ s <:+ c :: t := by
  rw [OwnStar, List.head?_cons, if_neg fun same => other (Option.some.inj same)]

theorem ownStar_nil : OwnStar [] s ↔ s = [] := by
  rw [OwnStar, if_neg nofun, List.suffix_nil]

/-- At the end of a text, only stars match. -/
theorem matching_nil_iff : Matching OwnStar p [] ↔ p.all (· = '*') = true := by
  induction p with
  | nil => simp [Matching]
  | cons pc ps ih =>
    by_cases isStar : pc = '*'
    · subst isStar
      rw [matching_star]
      simp only [ownStar_nil, exists_eq_left, ih, List.all_cons, decide_true, Bool.true_and]
    · rw [matching_char isStar]
      simp [isStar]

/-- Each character of the pattern stands for one of the text, a `*` for a `*`. -/
inductive Each : List Char → List Char → Prop where
  | nil : Each [] []
  | cons {pc c : Char} {q u : List Char} (fits : pc = '?' ∨ pc = c) (rest : Each q u) : Each (pc :: q) (c :: u)

theorem Each.snoc {u : List Char} (each : Each q u) (fits : pc = '?' ∨ pc = c) : Each (q ++ [pc]) (u ++ [c]) := by
  induction each with
  | nil => exact .cons fits .nil
  | cons first _ ih => exact .cons first ih

/-- Where the start of a pattern went through a text one by one, a match from further on in that text leaves no more
for the rest of the pattern. -/
theorem matching_behind {u w : List Char} (each : Each q u) (suffix : s <:+ u ++ w)
    (matching : Matching OwnStar (q ++ p) s) :
    ∃ s', s' <:+ w ∧ Matching OwnStar p s' := by
  induction each generalizing s with
  | nil => exact ⟨s, suffix, matching⟩
  | @cons pc c q u fits _ ih =>
    by_cases isStar : pc = '*'
    · subst isStar
      have same : c = '*' := by
        rcases fits with no | same
        · cases no
        · exact same.symm
      subst same
      obtain ⟨s', takes, rest⟩ := matching_star.mp matching
      refine ih ?_ rest
      rcases List.suffix_cons_iff.mp suffix with whole | further
      · subst whole
        rw [ownStar_star.mp takes]
        exact List.suffix_refl _
      · exact takes.suffix.trans further
    · obtain ⟨c', s', same, _, rest⟩ := (matching_char isStar).mp matching
      subst same
      refine ih ?_ rest
      rcases List.suffix_cons_iff.mp suffix with whole | further
      · cases whole
        exact List.suffix_refl _
      · exact (List.suffix_cons c' s').trans further

/-- What the matcher keeps: since the last `*` that was met, pattern and text went on one by one. -/
def Aligned (star : Option (List Char)) (p m : List Char) (k : Nat) : Prop :=
  ∀ sp, star = some sp → ∃ q, sp = q ++ p ∧ Each q (m.take k)

/-- The text that is left matches, or what came after the last `*` matches from further on. -/
def Finds (star : Option (List Char)) (p m : List Char) (k : Nat) : Prop :=
  Matching OwnStar p (m.drop k) ∨ ∃ sp, star = some sp ∧ ∃ s, s <:+ m.tail ∧ Matching OwnStar sp s

theorem take_succ_of_drop {k : Nat} (left : m.drop k = c :: t) : m.take (k + 1) = m.take k ++ [c] := by
  have here : m[k]? = some c := by
    have first := congrArg List.head? left
    rwa [List.head?_drop] at first
  rw [List.take_add_one, here]
  rfl

theorem drop_succ_of_drop {k : Nat} (left : m.drop k = c :: t) : m.drop (k + 1) = t := by
  rw [← List.tail_drop, left, List.tail_cons]

theorem Aligned.next {star : Option (List Char)} {k : Nat} (aligned : Aligned star (pc :: ps) m k) (left : m.drop k = c :: t)
    (fits : pc = '?' ∨ pc = c) : Aligned star ps m (k + 1) := by
  intro sp isStar
  obtain ⟨q, rfl, each⟩ := aligned sp isStar
  exact ⟨q ++ [pc], by simp, take_succ_of_drop left ▸ each.snoc fits⟩

theorem aligned_start {star : Option (List Char)} (same : ∀ sp, star = some sp → sp = p) : Aligned star p m 0 :=
  fun sp isStar => ⟨[], same sp isStar, by simpa using Each.nil⟩

/-- What is found further on is found behind what the pattern went through. -/
theorem Aligned.behind {star : Option (List Char)} {k : Nat} {sp : List Char} (aligned : Aligned star p m k)
    (isStar : star = some sp) (suffix : s <:+ m.tail) (matching : Matching OwnStar sp s) :
    ∃ s', s' <:+ m.drop k ∧ Matching OwnStar p s' := by
  obtain ⟨q, rfl, each⟩ := aligned sp isStar
  refine matching_behind each ?_ matching
  rw [List.take_append_drop]
  exact suffix.trans (List.tail_suffix m)

theorem exists_suffix_iff {P : List Char → Prop} (some : m ≠ []) :
    (P m ∨ ∃ s, s <:+ m.tail ∧ P s) ↔ ∃ s, s <:+ m ∧ P s := by
  cases m with
  | nil => exact absurd rfl some
  | cons c m =>
    constructor
    · rintro (whole | ⟨s, further, holds⟩)
      · exact ⟨_, List.suffix_refl _, whole⟩
      · exact ⟨s, further.trans (List.suffix_cons c m), holds⟩
    · rintro ⟨s, suffix, holds⟩
      rcases List.suffix_cons_iff.mp suffix with rfl | further
      · exact .inl holds
      · exact .inr ⟨s, further, holds⟩

section

variable {k : Nat} {last : Option (List Char)} {sp : List Char}

theorem globLoop_end (left : m.drop k = []) : globLoop last p m k = p.all (· = '*') := by
  rw [globLoop.eq_def]
  split
  · rfl
  · next some => cases left.symm.trans some

/-- A step inside the text. -/
theorem globLoop_char (left : m.drop k = c :: t) : globLoop last p m k =
    match p with
    | pc :: ps =>
      if pc = '?' ∨ pc = c then globLoop last ps m (k + 1)
      else if pc = '*' then globLoop (some ps) ps (m.drop k) 0
      else
        match last with
        | some sp => globLoop last sp m.tail 0
        | none => false
    | [] =>
      match last with
      | some sp => globLoop last sp m.tail 0
      | none => false := by
  rw [globLoop.eq_def]
  split
  · next none => cases left.symm.trans none
  · next c' t' some =>
    cases left.symm.trans some
    rfl

/-- The matcher goes back to the last `*`, which takes one more character. -/
theorem finds_back (no : ¬ Matching OwnStar p (m.drop k))
    (back : globLoop (some sp) sp m.tail 0 = true ↔ Finds (some sp) sp m.tail 0) :
    globLoop (some sp) sp m.tail 0 = true ↔ Finds (some sp) p m k := by
  rw [back]
  have tail : (Matching OwnStar sp m.tail ∨ ∃ s, s <:+ m.tail.tail ∧ Matching OwnStar sp s) ↔
      ∃ s, s <:+ m.tail ∧ Matching OwnStar sp s := by
    cases rest : m.tail with
    | nil => simp
    | cons d u => exact exists_suffix_iff (by simp)
  constructor
  · rintro (first | ⟨_, same, further⟩)
    · exact .inr ⟨sp, rfl, tail.mp (.inl first)⟩
    · cases same
      exact .inr ⟨sp, rfl, tail.mp (.inr further)⟩
  · rintro (here | ⟨_, same, further⟩)
    · exact absurd here no
    · cases same
      exact (tail.mpr further).imp id fun further => ⟨sp, rfl, further⟩

/-- The matcher finds what there is to find. -/
theorem globLoop_iff (aligned : Aligned last p m k) : globLoop last p m k = true ↔ Finds last p m k := by
  induction last, p, m, k using globLoop.induct with
  | case1 last p m k left =>
    rw [globLoop_end left, ← matching_nil_iff, ← left]
    refine ⟨.inl, ?_⟩
    rintro (here | ⟨sp, isStar, s, suffix, further⟩)
    · exact here
    · obtain ⟨s', suffix', rest⟩ := aligned.behind isStar suffix further
      rw [left, List.suffix_nil] at suffix'
      rw [left, ← suffix']
      exact rest
  | case2 last m k c t left pc ps fits ih =>
    rw [globLoop_char left]
    dsimp only
    rw [if_pos fits, ih (aligned.next left fits), Finds, Finds, left, drop_succ_of_drop left]
    have step : Matching OwnStar ps t ↔ Matching OwnStar (pc :: ps) (c :: t) := by
      by_cases isStar : pc = '*'
      · subst isStar
        have same : c = '*' := by
          rcases fits with no | same
          · cases no
          · exact same.symm
        subst same
        rw [matching_star]
        simp only [ownStar_star, exists_eq_left]
      · rw [matching_char_cons isStar]
        simp only [fits, true_and]
    rw [step]
  | case3 last m k c t left ps other ih =>
    have isChar : c ≠ '*' := fun same => other (.inr same.symm)
    rw [globLoop_char left]
    dsimp only
    rw [if_neg other, if_pos rfl, ih (aligned_start fun _ same => (Option.some.inj same).symm)]
    have here : Matching OwnStar ('*' :: ps) (m.drop k) ↔ ∃ s, s <:+ m.drop k ∧ Matching OwnStar ps s := by
      rw [left, matching_star]
      simp only [ownStar_other isChar]
    have run : Finds (some ps) ps (m.drop k) 0 ↔ Matching OwnStar ('*' :: ps) (m.drop k) := by
      rw [here, ← exists_suffix_iff (by rw [left]; simp), Finds, List.drop_zero]
      simp only [Option.some.injEq, exists_eq_left']
    rw [run]
    refine ⟨.inl, ?_⟩
    rintro (now | ⟨sp, isStar, s, suffix, further⟩)
    · exact now
    · obtain ⟨s', suffix', rest⟩ := aligned.behind isStar suffix further
      obtain ⟨s'', takes, rest⟩ := matching_star.mp rest
      exact here.mpr ⟨s'', takes.suffix.trans suffix', rest⟩
  | case4 m k c t left pc ps other isChar sp ih =>
    rw [globLoop_char left]
    dsimp only
    rw [if_neg other, if_neg isChar]
    refine finds_back ?_ (ih (aligned_start fun _ same => (Option.some.inj same).symm))
    rw [left, matching_char_cons isChar]
    exact fun fits => other fits.1
  | case5 m k c t left pc ps other isChar =>
    rw [globLoop_char left]
    dsimp only
    rw [if_neg other, if_neg isChar]
    refine ⟨nofun, ?_⟩
    rintro (here | ⟨_, no, _⟩)
    · rw [left, matching_char_cons isChar] at here
      exact absurd here.1 other
    · cases no
  | case6 m k c t left sp ih =>
    rw [globLoop_char left]
    dsimp only
    refine finds_back ?_ (ih (aligned_start fun _ same => (Option.some.inj same).symm))
    rw [left]
    exact nofun
  | case7 m k c t left =>
    rw [globLoop_char left]
    refine ⟨nofun, ?_⟩
    rintro (here | ⟨_, no, _⟩)
    · rw [left] at here
      cases here
    · cases no

end

/-- What the matcher answers. -/
theorem globMatch_iff {pattern text : String} : globMatch pattern text = true ↔ MatchesOwnStars pattern text := by
  rw [globMatch, globLoop_iff (fun _ none => by cases none), Finds, MatchesOwnStars, List.drop_zero]
  refine ⟨?_, .inl⟩
  rintro (here | ⟨_, no, _⟩)
  · exact here
  · cases no

/-- **The matcher is right** about a pattern and a text exactly when they match, if they do, with each `*` that is
tried at a `*` of the text taking that character. -/
theorem globMatch_right_iff {pattern text : String} :
    (globMatch pattern text = true ↔ GlobMatches pattern text) ↔
      (GlobMatches pattern text → MatchesOwnStars pattern text) := by
  rw [globMatch_iff]
  have own : MatchesOwnStars pattern text → GlobMatches pattern text := Matching.mono fun _ _ => OwnStar.suffix
  exact ⟨fun right => right.mpr, fun reaches => ⟨own, reaches⟩⟩

/-- It is right about every text without a `*`. -/
theorem globMatch_plain {pattern text : String} (plain : '*' ∉ text.toList) :
    globMatch pattern text = true ↔ GlobMatches pattern text := by
  refine globMatch_right_iff.mpr fun matching => ?_
  suffices all : ∀ (p t : List Char), '*' ∉ t → Matching AnyRun p t → Matching OwnStar p t from all _ _ plain matching
  intro p
  induction p with
  | nil => exact fun _ _ => id
  | cons pc ps ih =>
    intro t plain matching
    by_cases isStar : pc = '*'
    · subst isStar
      obtain ⟨s, takes, rest⟩ := matching_star.mp matching
      have suffix : s <:+ t := takes
      refine matching_star.mpr ⟨s, ?_, ih s (fun mem => plain (suffix.subset mem)) rest⟩
      rw [OwnStar, if_neg fun first : t.head? = some '*' => plain (List.mem_of_mem_head? first)]
      exact suffix
    · obtain ⟨c, s, rfl, fits, rest⟩ := (matching_char isStar).mp matching
      exact (matching_char isStar).mpr ⟨c, s, rfl, fits, ih s (fun mem => plain (List.mem_cons_of_mem c mem)) rest⟩

/-- A `*` that meets a `*` takes no more than that. -/
theorem globMatch_star_at_star :
    ¬ ∀ pattern text : String, globMatch pattern text = true ↔ GlobMatches pattern text := by
  intro right
  have matching : GlobMatches "*" "*a" := matching_star.mpr ⟨[], List.nil_suffix, rfl⟩
  have found := globMatch_iff.mp ((right "*" "*a").mpr matching)
  obtain ⟨s, takes, rest⟩ := matching_star.mp (show Matching OwnStar ('*' :: []) ('*' :: ['a']) from found)
  rw [ownStar_star] at takes
  subst takes
  cases rest

end Harpoon.Git
