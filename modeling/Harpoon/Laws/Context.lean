import Harpoon.Docker.Context
import Harpoon.Journal.Frame

/-!
# What a build context leaves out

Docker's own reading of `.dockerignore`, as it is documented, and the files that a snapshot leaves out. A file is left
out that Docker would send exactly when a pattern that ends in `/**` names the file itself.
-/

namespace Harpoon.Docker.Context

open Dockerfile (trimChars)
open Git (containsText)

namespace IgnoreRules

/-! ## Docker's reading -/

/-- `*` is any run of characters and `?` any character of one segment. -/
def globText : List Char → List Char → Bool
  | [], s => s.isEmpty
  | p :: ps, s =>
    if p = '*' then (List.range (s.length + 1)).any fun n => globText ps (s.drop n)
    else if p = '?' then !s.isEmpty && globText ps s.tail
    else s.head? = some p && globText ps s.tail

/-- `**` is any number of segments; at the end of a pattern it is what lies below, at least one. -/
def pathText : List String → List String → Bool
  | [], path => path.isEmpty
  | p :: rest, path =>
    if p = "**" then
      if rest.isEmpty then !path.isEmpty else (List.range (path.length + 1)).any fun n => pathText rest (path.drop n)
    else
      match path with
      | [] => false
      | s :: tail => globText p.toList s.toList && pathText rest tail

/-- Does the pattern use nothing but `*`, `?` and `**`? -/
def plain (segs : List String) : Bool :=
  !segs.isEmpty && segs.all fun s =>
    s ≠ "." && s ≠ ".." && !s.toList.any (fun c => c = '[' || c = '\\') && (s = "**" || !containsText "**" s)

/-- A pattern without the `**` at its end. -/
def stem : List String → List String
  | [] => []
  | s :: rest => if s = "**" ∧ stem rest = [] then [] else s :: stem rest

section

-- What patterns with other constructs match.
variable (extended : String → List String → Bool)

/-- Does the pattern match the path? -/
def matchesPath (line : String) (path : List String) : Bool :=
  if plain (segments line) then pathText (segments line) path else extended line path

/-- Does the pattern match the path, or a folder that it is below? -/
def matchesBelow (line : String) (path : List String) : Bool :=
  (List.range path.length).any fun k => matchesPath extended line (path.take (k + 1))

/-- After one more line, is the path excluded? -/
def dockerLine (path : List String) (excluded : Bool) (raw : String) : Bool :=
  match trimChars raw.toList with
  | [] => excluded
  | '#' :: _ => excluded
  | '!' :: cs => if matchesBelow extended (String.ofList (trimChars cs)) path then false else excluded
  | cs => if matchesBelow extended (String.ofList cs) path then true else excluded

/-- Does Docker exclude the path? -/
def dockerExcludes (text : String) (path : List String) : Bool :=
  (Wire.fields '\n' text).foldl (dockerLine extended path) false

/-- A pattern that ends in `/**` does not name the path itself without that ending, or Docker excludes the path for
another pattern. -/
def OnlyBelow (text : String) (path : List String) : Prop :=
  ∀ p ∈ (parse text).patterns, p.getLast? = some "**" →
    segMatch (stem p) path = true → dockerExcludes extended text path = true

end

/-! ## One segment -/

section

open String (utf8EncodeChar)

variable {c d : Char} {as bs : Wire.Bytes}

/-- The first byte of a character begins no other, and no later byte of one begins a character. -/
theorem first_byte (c : Char) : ∃ b bs, utf8EncodeChar c = b :: bs ∧ b.IsUTF8FirstByte ∧ ∀ b' ∈ bs, ¬ b'.IsUTF8FirstByte := by
  cases encoded : utf8EncodeChar c with
  | nil => exact absurd encoded String.utf8EncodeChar_ne_nil
  | cons b bs =>
    have starts (i : Nat) (hi : i < (utf8EncodeChar c).length) : (utf8EncodeChar c)[i].IsUTF8FirstByte ↔ i = 0 :=
      UInt8.isUTF8FirstByte_getElem_utf8EncodeChar
    simp only [encoded] at starts
    refine ⟨b, bs, rfl, (starts 0 (by simp)).mpr rfl, fun b' mem first => ?_⟩
    obtain ⟨i, inside, rfl⟩ := List.getElem_of_mem mem
    have zero := (starts (i + 1) (by simpa using inside)).mp first
    cases zero

/-- Two texts that begin with a character each and with the same bytes begin with the same character. -/
theorem encode_prefix (same : utf8EncodeChar c ++ as = utf8EncodeChar d ++ bs) : c = d ∧ as = bs := by
  have decoded (c : Char) (as : Wire.Bytes) : ByteArray.utf8DecodeChar? (utf8EncodeChar c ++ as).toByteArray 0 = some c := by
    rw [List.toByteArray_append]
    exact ByteArray.utf8DecodeChar?_utf8EncodeChar_append
  have char : c = d := Option.some.inj ((decoded c as).symm.trans (same ▸ decoded d bs))
  subst char
  exact ⟨rfl, List.append_cancel_left same⟩

def encode (cs : List Char) : Wire.Bytes := cs.flatMap utf8EncodeChar

variable {ps s : List Char} {b : UInt8} {front t : Wire.Bytes}

/-- Where a character begins in the bytes of a text, the rest of the text does. -/
theorem starts_at (whole : encode s = front ++ b :: t) (first : b.IsUTF8FirstByte) :
    ∃ m, encode (s.drop m) = b :: t := by
  induction s generalizing front with
  | nil => cases front <;> cases whole
  | cons d s ih =>
    cases front with
    | nil => exact ⟨0, whole⟩
    | cons f front =>
      obtain ⟨b', bs, encoded, -, later⟩ := first_byte d
      have parts : encode (d :: s) = utf8EncodeChar d ++ encode s := List.flatMap_cons
      rw [parts, encoded] at whole
      rcases List.append_eq_append_iff.mp whole with ⟨more, longer, rest⟩ | ⟨more, shorter, rest⟩
      · obtain ⟨m, found⟩ := ih rest
        exact ⟨m + 1, found⟩
      · cases more with
        | nil => exact ⟨1, rest.symm⟩
        | cons b'' more =>
          cases rest
          have inside : b ∈ bs := by
            cases shorter
            simp
          exact absurd first (later b inside)

/-- Bytes that are no star match themselves. -/
theorem glob_literal {xs ys : Wire.Bytes} (none : ∀ b ∈ xs, b ≠ 0x2A) (found : glob (xs ++ ys) t = true) :
    ∃ t', t = xs ++ t' ∧ glob ys t' = true := by
  induction xs generalizing t with
  | nil => exact ⟨t, rfl, found⟩
  | cons x xs ih =>
    rw [List.cons_append, glob, if_neg (none x (.head _)), Bool.and_eq_true] at found
    cases t with
    | nil => cases found.1
    | cons y t =>
      obtain ⟨t', rfl, rest⟩ := ih (fun b mem => none b (.tail _ mem)) found.2
      have same : y = x := by simpa using found.1
      exact ⟨t', by rw [same]; rfl, rest⟩

theorem encode_noStar {p : Char} (other : p ≠ '*') : ∀ b ∈ utf8EncodeChar p, b ≠ 0x2A := by
  rintro b mem rfl
  exact other (Char.toNat_inj.mp (Wire.mem_utf8EncodeChar mem (by decide)))

theorem globText_star {n : Nat} (found : globText ps (s.drop n) = true) : globText ('*' :: ps) s = true := by
  rw [globText, if_pos rfl, List.any_eq_true]
  rcases Nat.lt_or_ge n (s.length + 1) with inside | beyond
  · exact ⟨n, List.mem_range.mpr inside, found⟩
  · refine ⟨s.length, List.mem_range.mpr (Nat.lt_succ_self _), ?_⟩
    rw [List.drop_eq_nil_of_le (by omega)] at found
    rwa [List.drop_length]

/-- What matches byte by byte matches character by character; a match that starts in the middle of the text starts
at a character, or there is another that does. -/
theorem glob_sound (certain : '?' ∉ ps) : (∀ s, glob (encode ps) (encode s) = true → globText ps s = true) ∧
    ∀ s front t, encode s = front ++ t → glob (encode ps) t = true → ∃ m, globText ps (s.drop m) = true := by
  induction ps with
  | nil =>
    refine ⟨fun s found => ?_, fun s front t whole found => ⟨s.length, by rw [List.drop_length]; rfl⟩⟩
    cases s with
    | nil => rfl
    | cons d s =>
      obtain ⟨b, bs, encoded, -⟩ := first_byte d
      rw [encode, encode, List.flatMap_cons, encoded] at found
      cases found
  | cons p ps ih =>
    obtain ⟨aligned, anywhere⟩ := ih fun mem => certain (.tail _ mem)
    have parts : encode (p :: ps) = utf8EncodeChar p ++ encode ps := List.flatMap_cons
    by_cases star : p = '*'
    · subst star
      have stars : encode ('*' :: ps) = 0x2A :: encode ps := parts
      have later {t : Wire.Bytes} (found : glob (encode ('*' :: ps)) t = true) : ∃ n, glob (encode ps) (t.drop n) = true := by
        rw [stars, glob, if_pos rfl, List.any_eq_true] at found
        obtain ⟨n, -, found⟩ := found
        exact ⟨n, found⟩
      constructor
      · intro s found
        obtain ⟨n, found⟩ := later found
        obtain ⟨m, found⟩ := anywhere s ((encode s).take n) _ (List.take_append_drop n _).symm found
        exact globText_star found
      · intro s front t whole found
        obtain ⟨n, found⟩ := later found
        have rest : encode s = (front ++ t.take n) ++ t.drop n := by rw [List.append_assoc, List.take_append_drop, whole]
        obtain ⟨m, found⟩ := anywhere s _ _ rest found
        have same : globText ps ((s.drop m).drop 0) = true := found
        exact ⟨m, globText_star same⟩
    · have other : p ≠ '?' := fun same => certain (same ▸ .head _)
      have here (s : List Char) (found : glob (encode (p :: ps)) (encode s) = true) : globText (p :: ps) s = true := by
        rw [parts] at found
        obtain ⟨t, whole, found⟩ := glob_literal (encode_noStar star) found
        cases s with
        | nil =>
          obtain ⟨b, bs, encoded, -⟩ := first_byte p
          rw [encoded] at whole
          cases whole
        | cons d s =>
          have split : utf8EncodeChar d ++ encode s = utf8EncodeChar p ++ t := whole
          obtain ⟨rfl, rfl⟩ := encode_prefix split
          rw [globText, if_neg star, if_neg other, Bool.and_eq_true]
          exact ⟨by simp, aligned s found⟩
      refine ⟨here, fun s front t whole found => ?_⟩
      obtain ⟨b, bs, encoded, first, -⟩ := first_byte p
      have literal := found
      rw [parts] at literal
      obtain ⟨t', begins, -⟩ := glob_literal (encode_noStar star) literal
      rw [encoded] at begins
      rw [begins] at whole
      obtain ⟨m, rest⟩ := starts_at whole first
      refine ⟨m, here _ ?_⟩
      rw [rest]
      rw [begins] at found
      exact found

end

/-! ## Whole paths -/

section

variable {p : List String} {path : List String} {x : String}

/-- No segment has a `?`, which matches only itself here. -/
def Certain (p : List String) : Prop := ∀ s ∈ p, '?' ∉ s.toList

theorem glob_text {p s : String} (certain : '?' ∉ p.toList) (found : glob (Wire.utf8 p) (Wire.utf8 s) = true) :
    globText p.toList s.toList = true := by
  rw [Wire.utf8_eq, Wire.utf8_eq] at found
  exact (glob_sound certain).1 _ found

/-- The steps of a match. -/
theorem segMatch_star {rest : List String} : segMatch ("**" :: rest) path = true ↔
    ∃ n, n ≤ path.length ∧ segMatch rest (path.drop n) = true := by
  rw [segMatch.eq_def]
  dsimp only
  rw [if_pos rfl, List.any_eq_true]
  constructor
  · rintro ⟨n, inside, found⟩
    exact ⟨n, Nat.le_of_lt_succ (List.mem_range.mp inside), found⟩
  · rintro ⟨n, inside, found⟩
    exact ⟨n, List.mem_range.mpr (Nat.lt_succ_of_le inside), found⟩

theorem segMatch_name {s : String} {rest : List String} (name : s ≠ "**") : segMatch (s :: rest) path = true ↔
    ∃ t tail, path = t :: tail ∧ glob (Wire.utf8 s) (Wire.utf8 t) = true ∧ segMatch rest tail = true := by
  rw [segMatch.eq_def]
  dsimp only
  rw [if_neg name]
  cases path with
  | nil => exact ⟨nofun, fun ⟨_, _, whole, _⟩ => nomatch whole⟩
  | cons t tail =>
    dsimp only
    rw [Bool.and_eq_true]
    constructor
    · rintro ⟨first, rest⟩
      exact ⟨t, tail, rfl, first, rest⟩
    · rintro ⟨_, _, whole, first, rest⟩
      cases whole
      exact ⟨first, rest⟩

theorem pathText_star {rest : List String} (some : rest ≠ []) {n : Nat} (inside : n ≤ path.length)
    (found : pathText rest (path.drop n) = true) : pathText ("**" :: rest) path = true := by
  rw [pathText.eq_def]
  dsimp only
  rw [if_pos rfl, if_neg (by simpa using some), List.any_eq_true]
  exact ⟨n, List.mem_range.mpr (Nat.lt_succ_of_le inside), found⟩

theorem pathText_name {s t : String} {rest tail : List String} (name : s ≠ "**") (first : globText s.toList t.toList = true)
    (found : pathText rest tail = true) : pathText (s :: rest) (t :: tail) = true := by
  rw [pathText, if_neg name]
  exact Bool.and_eq_true_iff.mpr ⟨first, found⟩

/-- What is below a path that matches a pattern with `**` at its end. -/
theorem pathText_below (certain : Certain p) (last : p.getLast? = some "**") (found : segMatch p path = true) :
    pathText p (path ++ [x]) = true := by
  induction p generalizing path with
  | nil => cases last
  | cons s rest ih =>
    have certain' : Certain rest := fun t mem => certain t (.tail _ mem)
    by_cases star : s = "**"
    · subst star
      obtain ⟨n, inside, found⟩ := segMatch_star.mp found
      by_cases none : rest = []
      · subst none
        rw [pathText.eq_def]
        simp
      · have last' : rest.getLast? = some "**" := by rwa [List.getLast?_cons_of_ne_nil none] at last
        have below := ih certain' last' found
        rw [← List.drop_append_of_le_length inside] at below
        exact pathText_star none (by rw [List.length_append]; omega) below
    · obtain ⟨t, tail, rfl, first, found⟩ := (segMatch_name star).mp found
      have none : rest ≠ [] := by
        rintro rfl
        exact star (Option.some.inj last)
      rw [List.getLast?_cons_of_ne_nil none] at last
      exact pathText_name star (glob_text (certain s (.head _)) first) (ih certain' last found)

theorem pathText_stars (none : stem p = []) (some : p ≠ []) (inside : path ≠ []) : pathText p path = true := by
  induction p with
  | nil => exact absurd rfl some
  | cons s rest ih =>
    rw [stem] at none
    split at none
    next stars =>
      rw [stars.1]
      by_cases last : rest = []
      · subst last
        rw [pathText.eq_def]
        simpa using inside
      · exact pathText_star last (Nat.zero_le _) (ih stars.2 last)
    · cases none

/-- What matches a pattern matches it as Docker reads it, or it matches the pattern without the `**` at its end. -/
theorem pathText_or_stem (certain : Certain p) (found : segMatch p path = true) :
    pathText p path = true ∨ p.getLast? = some "**" ∧ segMatch (stem p) path = true := by
  induction p generalizing path with
  | nil => exact .inl found
  | cons s rest ih =>
    have certain' : Certain rest := fun t mem => certain t (.tail _ mem)
    by_cases star : s = "**"
    · subst star
      obtain ⟨n, inside, found⟩ := segMatch_star.mp found
      -- Stars alone match everything but the empty path.
      have alone (stars : stem rest = []) (ends : ("**" :: rest).getLast? = some "**") :
          pathText ("**" :: rest) path = true ∨
            ("**" :: rest).getLast? = some "**" ∧ segMatch (stem ("**" :: rest)) path = true := by
        have all : stem ("**" :: rest) = [] := by rw [stem, if_pos ⟨rfl, stars⟩]
        by_cases empty : path = []
        · subst empty
          rw [all]
          exact .inr ⟨ends, rfl⟩
        · exact .inl (pathText_stars all (List.cons_ne_nil _ _) empty)
      rcases ih certain' found with found | ⟨ends, found⟩
      · by_cases only : rest = []
        · subst only
          exact alone rfl rfl
        · exact .inl (pathText_star only inside found)
      · have other : rest ≠ [] := by
          rintro rfl
          cases ends
        rw [← List.getLast?_cons_of_ne_nil other] at ends
        by_cases stars : stem rest = []
        · exact alone stars ends
        · rw [stem, if_neg fun all => stars all.2]
          exact .inr ⟨ends, segMatch_star.mpr ⟨n, inside, found⟩⟩
    · obtain ⟨t, tail, rfl, first, found⟩ := (segMatch_name star).mp found
      rcases ih certain' found with found | ⟨ends, found⟩
      · exact .inl (pathText_name star (glob_text (certain s (.head _)) first) found)
      · have other : rest ≠ [] := by
          rintro rfl
          cases ends
        rw [stem, if_neg fun stars => star stars.1]
        exact .inr ⟨by rwa [List.getLast?_cons_of_ne_nil other], (segMatch_name star).mpr ⟨t, tail, rfl, first, found⟩⟩

/-- What matches a pattern without the `**` at its end matches it. -/
theorem segMatch_of_stem (found : segMatch (stem p) path = true) : segMatch p path = true := by
  induction p generalizing path with
  | nil => exact found
  | cons s rest ih =>
    rw [stem] at found
    split at found
    next stars =>
      have empty : path = [] := List.isEmpty_iff.mp found
      subst empty
      rw [stars.1]
      exact segMatch_star.mpr ⟨0, Nat.le_refl _, ih (stars.2 ▸ found)⟩
    · by_cases star : s = "**"
      · subst star
        obtain ⟨n, inside, found⟩ := segMatch_star.mp found
        exact segMatch_star.mpr ⟨n, inside, ih found⟩
      · obtain ⟨t, tail, rfl, first, found⟩ := (segMatch_name star).mp found
        exact (segMatch_name star).mpr ⟨t, tail, rfl, first, ih found⟩

end

/-! ## Whole texts -/

section

variable {extended : String → List String → Bool} {text : String} {lines : List String} {r : IgnoreRules}
  {p path : List String}

/-- A line of which the rules make a pattern. -/
structure IsPattern (raw : String) (p : List String) : Prop where
  begins : ∃ c cs, trimChars raw.toList = c :: cs ∧ c ≠ '#' ∧ c ≠ '!'
  segs : p = segments (String.ofList (trimChars raw.toList))
  clear : understood p = true

/-- What one line does to the rules. -/
theorem parseLine_spec (r : IgnoreRules) (raw : String) :
    ((trimChars raw.toList).head? = some '!' ∧ (parseLine r raw).disabled = true) ∨
      ((trimChars raw.toList).head? ≠ some '!' ∧ (parseLine r raw).disabled = r.disabled ∧
        ∀ p ∈ (parseLine r raw).patterns, p ∈ r.patterns ∨ IsPattern raw p) := by
  rw [parseLine.eq_def]
  split
  next none =>
    exact .inr ⟨by rw [none]; simp, rfl, fun p mem => .inl mem⟩
  next cs comment =>
    exact .inr ⟨by rw [comment]; simp, rfl, fun p mem => .inl mem⟩
  next cs again =>
    exact .inl ⟨by rw [again]; rfl, rfl⟩
  next some comment again =>
    cases line : trimChars raw.toList with
    | nil => exact absurd line some
    | cons c cs =>
      have noComment : c ≠ '#' := fun same => comment cs (by rw [line, same])
      have noAgain : c ≠ '!' := fun same => again cs (by rw [line, same])
      refine .inr ⟨by simpa using noAgain, ?_⟩
      dsimp only
      split
      next clear =>
        refine ⟨rfl, fun p mem => ?_⟩
        rcases List.mem_append.mp mem with mem | mem
        · exact .inl mem
        · obtain rfl := List.mem_singleton.mp mem
          rw [← line] at clear ⊢
          exact .inr ⟨⟨c, cs, line, noComment, noAgain⟩, rfl, clear⟩
      · exact ⟨rfl, fun p mem => .inl mem⟩

theorem foldl_parseLine (enabled : (lines.foldl parseLine r).disabled = false) : r.disabled = false ∧
    (∀ raw ∈ lines, (trimChars raw.toList).head? ≠ some '!') ∧
    ∀ p ∈ (lines.foldl parseLine r).patterns, p ∈ r.patterns ∨ ∃ raw ∈ lines, IsPattern raw p := by
  induction lines generalizing r with
  | nil => exact ⟨enabled, nofun, fun p mem => .inl mem⟩
  | cons raw lines ih =>
    obtain ⟨on, none, made⟩ := ih enabled
    rcases parseLine_spec r raw with ⟨-, off⟩ | ⟨other, same, first⟩
    · rw [off] at on
      cases on
    · refine ⟨same ▸ on, ?_, fun p mem => ?_⟩
      · intro raw' mem
        rcases List.mem_cons.mp mem with rfl | mem
        · exact other
        · exact none raw' mem
      · rcases made p mem with mem | ⟨raw', inside, made⟩
        · exact (first p mem).imp_right fun made => ⟨raw, .head _, made⟩
        · exact .inr ⟨raw', .tail _ inside, made⟩

/-- Where each pattern of the rules comes from. Rules with a pattern have no `!` line. -/
theorem mem_patterns (mem : p ∈ (parse text).patterns) : ∃ raw ∈ Wire.fields '\n' text, IsPattern raw p ∧
    ∀ raw ∈ Wire.fields '\n' text, (trimChars raw.toList).head? ≠ some '!' := by
  rw [parse] at mem
  split at mem
  · cases mem
  next on =>
    obtain ⟨-, none, made⟩ := foldl_parseLine (r := {}) (Bool.eq_false_iff.mpr on)
    rcases made p mem with mem | ⟨raw, inside, made⟩
    · cases mem
    · exact ⟨raw, inside, made, none⟩

/-- Without a `!` line, what one pattern excludes is excluded. -/
theorem excluded_of_line {raw : String} {c : Char} {cs : List Char} {excluded : Bool}
    (none : ∀ raw ∈ lines, (trimChars raw.toList).head? ≠ some '!') (begins : trimChars raw.toList = c :: cs)
    (noComment : c ≠ '#') (found : matchesBelow extended (String.ofList (c :: cs)) path = true)
    (inside : excluded = true ∨ raw ∈ lines) : lines.foldl (dockerLine extended path) excluded = true := by
  induction lines generalizing excluded with
  | nil => exact inside.resolve_right (List.not_mem_nil)
  | cons raw' lines ih =>
    refine ih (fun raw mem => none raw (.tail _ mem)) ?_
    have other := none raw' (.head _)
    have keeps (already : excluded = true) : dockerLine extended path excluded raw' = true := by
      rw [dockerLine.eq_def]
      split
      · exact already
      · exact already
      next again =>
        rw [again] at other
        exact absurd rfl other
      · split
        · rfl
        · exact already
    rcases inside with already | inside
    · exact .inl (keeps already)
    · rcases List.mem_cons.mp inside with rfl | inside
      · left
        rw [dockerLine.eq_def, begins]
        split
        next none => cases none
        next comment => cases comment; exact absurd rfl noComment
        next again =>
          rw [begins] at other
          cases again
          exact absurd rfl other
        next line => rw [if_pos found]
      · exact .inr inside

theorem clear_of_understood (clear : understood p = true) : plain p = true ∧ Certain p := by
  rw [understood, Bool.and_eq_true, List.all_eq_true] at clear
  obtain ⟨some, each⟩ := clear
  constructor
  · rw [plain, Bool.and_eq_true, List.all_eq_true]
    refine ⟨some, fun s mem => ?_⟩
    have ok := each s mem
    simp only [Bool.and_eq_true, Bool.not_eq_true', List.any_eq_false, Bool.or_eq_true, decide_eq_true_eq] at ok ⊢
    obtain ⟨⟨names, chars⟩, stars⟩ := ok
    exact ⟨⟨names, fun c inside special => chars c inside (by rcases special with rfl | rfl <;> simp)⟩, stars⟩
  · intro s mem inside
    have ok := each s mem
    simp only [Bool.and_eq_true, Bool.not_eq_true', List.any_eq_false] at ok
    exact absurd (by decide) (ok.1.2 '?' inside)

/-- What the rules exclude is excluded by Docker, except for a path that a pattern with `**` at its end names. -/
theorem excludes_sound (some : path ≠ []) :
    ((parse text).excludes path = true → dockerExcludes extended text path = true) ↔ OnlyBelow extended text path := by
  have positive : 0 < path.length := List.length_pos_iff.mpr some
  constructor
  · intro sound p mem ends found
    refine sound (List.any_eq_true.mpr ⟨p, mem, List.any_eq_true.mpr ⟨path.length - 1, List.mem_range.mpr (by omega), ?_⟩⟩)
    rw [List.take_of_length_le (by omega)]
    exact segMatch_of_stem found
  · intro below excluded
    obtain ⟨p, mem, found⟩ := List.any_eq_true.mp excluded
    obtain ⟨k, inside, found⟩ := List.any_eq_true.mp found
    have inside := List.mem_range.mp inside
    obtain ⟨raw, line, ⟨⟨c, cs, begins, noComment, -⟩, segs, clear⟩, none⟩ := mem_patterns mem
    obtain ⟨plain, certain⟩ := clear_of_understood clear
    have excluded_at (n : Nat) (inside : n < path.length) (found : pathText p (path.take (n + 1)) = true) :
        dockerExcludes extended text path = true := by
      refine excluded_of_line none begins noComment ?_ (.inr line)
      refine List.any_eq_true.mpr ⟨n, List.mem_range.mpr inside, ?_⟩
      rw [begins] at segs
      rw [matchesPath, ← segs, if_pos plain]
      exact found
    rcases pathText_or_stem certain found with text | ⟨ends, named⟩
    · exact excluded_at k inside text
    · rcases Nat.lt_or_ge (k + 1) path.length with more | whole
      · refine excluded_at (k + 1) more ?_
        rw [List.take_succ_eq_append_getElem more]
        exact pathText_below certain ends found
      · rw [List.take_of_length_le whole] at named
        exact below p mem ends named

end

end IgnoreRules

/-! ## Trees -/

/-- Is it a file or a link? -/
def Node.isLeaf : Node → Bool
  | .file _ => true
  | .link => true
  | _ => false

/-- What a path of a tree stands for. -/
inductive Within : List (String × Node) → List String → Node → Prop
  | entry {entries : List (String × Node)} {name : String} {node : Node} (mem : (name, node) ∈ entries) :
    Within entries [name] node
  | folder {entries inner : List (String × Node)} {name : String} {path : List String} {node : Node}
    (mem : (name, .dir inner) ∈ entries) (rest : Within inner path node) : Within entries (name :: path) node

/-- The paths that are reached from a directory when no entry on the way is left out. -/
inductive Sent (rules : IgnoreRules) (keep : List (List String)) :
    List String → List (String × Node) → List String → Node → Prop
  | entry {rel : List String} {entries : List (String × Node)} {name : String} {node : Node}
    (mem : (name, node) ∈ entries) (kept : leavesOut rules keep (rel ++ [name]) node = false) :
    Sent rules keep rel entries (rel ++ [name]) node
  | folder {rel path : List String} {entries inner : List (String × Node)} {name : String} {node : Node}
    (mem : (name, .dir inner) ∈ entries) (kept : leavesOut rules keep (rel ++ [name]) (.dir inner) = false)
    (rest : Sent rules keep (rel ++ [name]) inner path node) : Sent rules keep rel entries path node

section

variable {rules : IgnoreRules} {keep : List (List String)} {limit : Nat}
  {fails : CopyStep → List String → Option SnapshotError} {snap snap' : Snapshot}
  {entries : List (String × Node)} {path rel : List String} {node : Node}

theorem copyNode_copied {r : List String} (copies : copyNode limit snap r node = .ok snap') :
    path ∈ snap'.copied ↔ path ∈ snap.copied ∨ node.isLeaf = true ∧ path = r := by
  cases node with
  | dir inner => cases copies; simp [Node.isLeaf]
  | link => cases copies; simp [Node.isLeaf]
  | other => cases copies; simp [Node.isLeaf]
  | file size =>
    rw [copyNode] at copies
    split at copies
    · cases copies
    · cases copies; simp [Node.isLeaf]

theorem copyEntry_copied {entry : String × Node} (copies : copyEntry rules keep limit fails rel snap entry = .ok snap') :
    path ∈ snap'.copied ↔ path ∈ snap.copied ∨
      leavesOut rules keep (rel ++ [entry.1]) entry.2 = false ∧ entry.2.isLeaf = true ∧ path = rel ++ [entry.1] := by
  rw [copyEntry] at copies
  split at copies
  · cases copies
  · split at copies
    next out =>
      cases copies
      simp [out]
    next kept =>
      split at copies
      · cases copies
      · rw [copyNode_copied copies]
        simp [kept]

/-- What the entries of a directory add to the copy. -/
theorem copyDir_copied (copies : copyDir rules keep limit fails rel entries snap = .ok snap') :
    path ∈ snap'.copied ↔ path ∈ snap.copied ∨ ∃ entry ∈ entries,
      leavesOut rules keep (rel ++ [entry.1]) entry.2 = false ∧ entry.2.isLeaf = true ∧ path = rel ++ [entry.1] := by
  rw [copyDir] at copies
  split at copies
  · cases copies
  induction entries generalizing snap with
  | nil =>
    cases copies
    simp
  | cons e entries ih =>
    rw [List.foldlM_cons] at copies
    obtain ⟨snap₁, first, copies⟩ := Journal.bind_ok copies
    rw [ih copies, copyEntry_copied first]
    simp only [List.mem_cons, or_and_right, exists_or, exists_eq_left, or_assoc]

theorem mem_pushed {s : List String × List (String × Node)} : s ∈ pushed rules keep rel entries ↔
    ∃ name inner, (name, .dir inner) ∈ entries ∧ leavesOut rules keep (rel ++ [name]) (.dir inner) = false ∧
      s = (rel ++ [name], inner) := by
  induction entries with
  | nil => simp [pushed]
  | cons e entries ih =>
    obtain ⟨name, node⟩ := e
    cases node with
    | dir inner =>
      rw [pushed]
      split
      next out =>
        rw [ih]
        constructor
        · rintro ⟨n, i, mem, kept, rfl⟩
          exact ⟨n, i, .tail _ mem, kept, rfl⟩
        · rintro ⟨n, i, mem, kept, rfl⟩
          rcases List.mem_cons.mp mem with same | mem
          · cases same
            rw [kept] at out
            cases out
          · exact ⟨n, i, mem, kept, rfl⟩
      next kept =>
        rw [List.mem_append, ih, List.mem_singleton]
        constructor
        · rintro (⟨n, i, mem, kept, rfl⟩ | rfl)
          · exact ⟨n, i, .tail _ mem, kept, rfl⟩
          · exact ⟨name, inner, .head _, Bool.eq_false_iff.mpr kept, rfl⟩
        · rintro ⟨n, i, mem, kept, rfl⟩
          rcases List.mem_cons.mp mem with same | mem
          · cases same
            exact .inr rfl
          · exact .inl ⟨n, i, mem, kept, rfl⟩
    | file size => rw [pushed, ih]; simp; simp
    | link => rw [pushed, ih]; simp; simp
    | other => rw [pushed, ih]; simp; simp

/-- The copy has what it had and the files and links that are reached from the directories of the stack. -/
theorem copyTree_copied {stack : List (List String × List (String × Node))}
    (copies : copyTree rules keep limit fails stack snap = .ok snap') :
    path ∈ snap'.copied ↔ path ∈ snap.copied ∨
      ∃ s ∈ stack, ∃ node, node.isLeaf = true ∧ Sent rules keep s.1 s.2 path node := by
  induction stack, snap using copyTree.induct rules keep limit fails with
  | case1 snap =>
    rw [copyTree] at copies
    cases copies
    simp
  | case2 snap rel entries stack e failed =>
    rw [copyTree, failed] at copies
    cases copies
  | case3 snap rel entries stack snap₁ entered ih =>
    rw [copyTree, entered] at copies
    rw [ih copies, copyDir_copied entered]
    constructor
    · rintro ((mem | ⟨entry, mem, kept, leaf, rfl⟩) | ⟨s, mem, node, leaf, sent⟩)
      · exact .inl mem
      · exact .inr ⟨_, .head _, entry.2, leaf, .entry mem kept⟩
      · rcases List.mem_append.mp mem with mem | mem
        · obtain ⟨name, inner, inside, kept, rfl⟩ := mem_pushed.mp mem
          exact .inr ⟨_, .head _, node, leaf, .folder inside kept sent⟩
        · exact .inr ⟨s, .tail _ mem, node, leaf, sent⟩
    · rintro (mem | ⟨s, mem, node, leaf, sent⟩)
      · exact .inl (.inl mem)
      · rcases List.mem_cons.mp mem with rfl | mem
        · cases sent with
          | entry mem kept => exact .inl (.inr ⟨_, mem, kept, leaf, rfl⟩)
          | folder mem kept rest =>
            exact .inr ⟨_, List.mem_append_left _ (mem_pushed.mpr ⟨_, _, mem, kept, rfl⟩), node, leaf, rest⟩
        · exact .inr ⟨s, List.mem_append_right _ mem, node, leaf, sent⟩

theorem excludes_append {more : List String} (excluded : rules.excludes path = true) :
    rules.excludes (path ++ more) = true := by
  obtain ⟨p, mem, found⟩ := List.any_eq_true.mp excluded
  obtain ⟨k, inside, found⟩ := List.any_eq_true.mp found
  have inside := List.mem_range.mp inside
  refine List.any_eq_true.mpr ⟨p, mem, List.any_eq_true.mpr ⟨k, List.mem_range.mpr ?_, ?_⟩⟩
  · rw [List.length_append]
    omega
  · rwa [List.take_append_of_le_length (by omega)]

theorem excludes_of_sent (sent : Sent rules keep rel entries path node) (leaf : node.isLeaf = true) (other : path ∉ keep) :
    rules.excludes path = false := by
  induction sent with
  | @entry rel entries name node mem kept =>
    have noDir {node : Node} (leaf : node.isLeaf = true) : node.isDir = false := by
      cases node <;> first | rfl | cases leaf
    have outside : keep.contains (rel ++ [name]) = false := by simpa using other
    rw [leavesOut, noDir leaf, Bool.false_and, Bool.not_false, Bool.and_true, outside, Bool.not_false, Bool.and_true] at kept
    exact kept
  | folder mem kept rest ih => exact ih leaf other

theorem sent_of_within (within : Within entries path node) (included : rules.excludes (rel ++ path) = false) :
    Sent rules keep rel entries (rel ++ path) node := by
  have kept {r more : List String} {node : Node} (included : rules.excludes (r ++ more) = false) :
      leavesOut rules keep r node = false := by
    cases excluded : rules.excludes r with
    | true =>
      rw [excludes_append excluded] at included
      cases included
    | false => rw [leavesOut, excluded, Bool.false_and, Bool.false_and]
  induction within generalizing rel with
  | entry mem =>
    rw [← List.append_nil (rel ++ _)] at included
    exact .entry mem (kept included)
  | folder mem rest ih =>
    rw [← List.singleton_append, ← List.append_assoc] at included ⊢
    exact .folder mem (kept included) (ih included)

/-- Of the files and links that are not sent in any case, the copy has those that the rules do not exclude. -/
theorem copied_iff (copies : copyTree rules keep limit fails [([], entries)] {} = .ok snap)
    (within : Within entries path node) (leaf : node.isLeaf = true) (other : path ∉ keep) :
    path ∈ snap.copied ↔ rules.excludes path = false := by
  rw [copyTree_copied copies]
  constructor
  · rintro (mem | ⟨s, mem, node, leaf, sent⟩)
    · cases mem
    · obtain rfl := List.mem_singleton.mp mem
      exact excludes_of_sent sent leaf other
  · intro included
    exact .inr ⟨_, .head _, node, leaf, sent_of_within within included⟩

/-- A file that the copy leaves out is one that Docker leaves out exactly when no pattern that ends in `/**` names the
file itself (or another pattern excludes it). -/
theorem left_out_iff {extended : String → List String → Bool} {text nonce : String} {context : List (String × Node)}
    {dockerfile : List String}
    (made : createSnapshot context dockerfile (.parse text) limit fails nonce = .ok snap)
    (within : Within context path node) (leaf : node.isLeaf = true) (other : path ∉ alwaysSent dockerfile) :
    (path ∉ snap.copied → IgnoreRules.dockerExcludes extended text path = true) ↔
      IgnoreRules.OnlyBelow extended text path := by
  have some : path ≠ [] := by cases within <;> exact List.cons_ne_nil _ _
  rw [createSnapshot] at made
  split at made
  · rw [copied_iff made within leaf other, Bool.not_eq_false, IgnoreRules.excludes_sound some]
  · cases made

end

section

open IgnoreRules

/-- A source tree with a Dockerfile and a file. -/
def smallTree : List (String × Node) := [("Dockerfile", .file 20), ("notes", .file 3)]

/-- The copy of the tree, when its entries are copied without an error. -/
theorem smallTree_copied {rules : IgnoreRules} {snap : Snapshot}
    (copied : (copyDir rules (alwaysSent ["Dockerfile"]) 100 (fun _ _ => none) [] smallTree {}).toOption = some snap) :
    createSnapshot smallTree ["Dockerfile"] rules 100 (fun _ _ => none) "0a" = .ok snap := by
  have nonce : nonceOk "0a" = true := by decide
  have stack : pushed rules (alwaysSent ["Dockerfile"]) [] smallTree = [] := rfl
  rw [createSnapshot, if_pos nonce, copyTree, Journal.ok_of_toOption copied]
  dsimp only
  rw [stack, List.nil_append, copyTree]

/-- The copy without the file `notes`. -/
def withoutNotes : Snapshot := { copied := [["Dockerfile"]], files := 1, bytes := 20 }

/-- A pattern that names the file is one by which Docker leaves it out too. -/
theorem left_out_iff_named : ["notes"] ∉ withoutNotes.copied ∧ dockerExcludes (fun _ _ => false) "notes" ["notes"] = true := by
  have made : createSnapshot smallTree ["Dockerfile"] (.parse "notes") 100 (fun _ _ => none) "0a" = .ok withoutNotes :=
    smallTree_copied (by decide)
  have within : Within smallTree ["notes"] (.file 3) := .entry (by simp [smallTree])
  have out : ["notes"] ∉ withoutNotes.copied := by decide
  refine ⟨out, (left_out_iff made within rfl (by decide)).mpr (fun p mem ends => ?_) out⟩
  have none : ((parse "notes").patterns.all fun p => p.getLast? ≠ some "**") = true := by decide
  exact absurd ends (of_decide_eq_true (List.all_eq_true.mp none p mem))

/-- The file `notes` is left out for the pattern `notes/**`, which is about a folder of that name. -/
theorem notes_left_out : ∃ snap, createSnapshot smallTree ["Dockerfile"] (.parse "notes/**") 100 (fun _ _ => none) "0a" = .ok snap ∧
    Within smallTree ["notes"] (.file 3) ∧ ["notes"] ∉ alwaysSent ["Dockerfile"] ∧ ["notes"] ∉ snap.copied ∧
      dockerExcludes (fun _ _ => false) "notes/**" ["notes"] = false :=
  ⟨withoutNotes, smallTree_copied (by decide),
    .entry (by simp [smallTree]), by decide, by decide, by decide⟩

end

end Harpoon.Docker.Context
