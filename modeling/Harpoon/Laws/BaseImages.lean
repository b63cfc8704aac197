import Harpoon.Docker.Frontend

/-!
# Which references of a Dockerfile the check sees

The check reads a Dockerfile line by line, as if each line were an instruction. It sees an image that a build refers to
exactly when a line of the text names it in the open: as the base of a `FROM`, or after the `--from=` of a `COPY` or an `ADD`.
-/

namespace Harpoon.Docker.Dockerfile

open Git (isWhitespace)

/-! ## A line by itself -/

/-- What a line is, read by itself. -/
inductive Look where
  | blank
  /-- A comment; and is it a syntax directive, where directives can stand? -/
  | comment (syntax_ : Bool)
  /-- `FROM`, with the words that are no options. -/
  | base (rest : List String)
  /-- `COPY` or `ADD`, with its words. -/
  | copy (words : List String)
  | other
  deriving DecidableEq, Repr

def look (raw : String) : Look :=
  match trimChars raw.toList with
  | [] => .blank
  | '#' :: comment => .comment ("syntax=".toList.isPrefixOf (((trimChars comment).map Char.toLower).filter (· ≠ ' ')))
  | line =>
    match splitWords [] line with
    | [] => .other
    | op :: words =>
      if asciiUpper op = "FROM" then .base (words.filter fun w => (Wire.stripPrefix "--" w).isNone)
      else if asciiUpper op = "COPY" ∨ asciiUpper op = "ADD" then .copy words
      else .other

/-- The images that the words after `COPY` and `ADD` name. -/
def sources (words : List String) : List String := words.filterMap (Wire.stripPrefix "--from=")

/-- The stage that a line declares. -/
def declares (raw : String) : Option String :=
  match look raw with
  | .base (_ :: as_ :: name :: _) => if asciiLower as_ = "as" then some (asciiLower name) else none
  | _ => none

/-- The line is a `FROM` with an image. -/
def opensStage (raw : String) : Bool :=
  match look raw with
  | .base (_ :: _) => true
  | _ => false

/-- An earlier line declares a stage of this name. -/
def IsStage (before : List String) (name : String) : Prop := ∃ line ∈ before, declares line = some (asciiLower name)

/-- The line names the image, and no line before it makes a stage of the name. -/
def Names (before : List String) (line image : String) : Prop :=
  match look line with
  | .base rest => rest.head? = some image ∧ asciiLower image ≠ "scratch" ∧ ¬ IsStage before image
  | .copy words =>
    image ∈ sources words ∧ ¬ IsStage before image ∧
      ¬ (Wire.parseUnsigned 10 (UInt64.size - 1) image).any (· < before.countP opensStage)
  | _ => False

/-- The line has a variable where an image is named. -/
def HasVariable (line : String) : Prop :=
  match look line with
  | .base rest => ∃ image, rest.head? = some image ∧ isVariable image = true
  | .copy words => ∃ image ∈ sources words, isVariable image = true
  | _ => False

/-- The check refuses the line, after the lines before it. -/
def RefusedAfter (before : List String) (line : String) : Prop :=
  (look line = .comment true ∧ ∀ l ∈ before, ∃ b, look l = .comment b) ∨ HasVariable line

/-! ## The lines one after the other -/

/-- What the check has read from the lines. -/
structure Read (before : List String) (r : Reading) : Prop where
  seenFrom : r.seenFrom = true ↔ ∃ line ∈ before, ∃ rest, look line = .base rest
  directives : r.inDirectives = true ↔ ∀ line ∈ before, ∃ b, look line = .comment b
  stages : ∀ name, name ∈ r.stages ↔ ∃ line ∈ before, declares line = some name
  count : r.stageCount = before.countP opensStage
  images : ∀ image, image ∈ r.images ↔ ∃ a line b, before = a ++ line :: b ∧ Names a line image

section

variable {before : List String} {line raw name image : String} {r r' : Reading} {names words : List String}

theorem mem_insertName : image ∈ insertName name names ↔ image = name ∨ image ∈ names := by
  induction names with
  | nil => simp [insertName]
  | cons other names ih =>
    rw [insertName]
    split
    · next same => simp [same]
    · split
      · simp
      · rw [List.mem_cons, ih, List.mem_cons]
        exact or_left_comm

/-- A split of a list with one more at its end. -/
theorem split_snoc {P : List String → String → Prop} :
    (∃ a l b, before ++ [raw] = a ++ l :: b ∧ P a l) ↔ (∃ a l b, before = a ++ l :: b ∧ P a l) ∨ P before raw := by
  constructor
  · rintro ⟨a, l, b, same, holds⟩
    rcases List.eq_nil_or_concat b with rfl | ⟨b, last, rfl⟩
    · obtain ⟨rfl, ends⟩ := List.append_inj' same rfl
      cases ends
      exact .inr holds
    · rw [List.concat_eq_append, ← List.cons_append, ← List.append_assoc] at same
      obtain ⟨rfl, -⟩ := List.append_inj' same rfl
      exact .inl ⟨a, l, b, rfl, holds⟩
  · rintro (⟨a, l, b, rfl, holds⟩ | holds)
    · exact ⟨a, l, b ++ [raw], by rw [List.append_assoc, List.cons_append], holds⟩
    · exact ⟨before, raw, [], rfl, holds⟩

/-- An instruction, by its words. -/
def lookWords : List String → Look
  | [] => .other
  | op :: words =>
    if asciiUpper op = "FROM" then .base (words.filter fun w => (Wire.stripPrefix "--" w).isNone)
    else if asciiUpper op = "COPY" ∨ asciiUpper op = "ADD" then .copy words
    else .other

theorem look_instruction {c : Char} {cs : List Char} (chars : trimChars raw.toList = c :: cs) (other : c ≠ '#') :
    look raw = lookWords (splitWords [] (c :: cs)) := by
  unfold look
  rw [chars]
  split
  · next none => cases none
  · next same =>
    cases same
    exact absurd rfl other
  · unfold lookWords
    rfl

theorem readLine_instruction {c : Char} {cs : List Char} (chars : trimChars raw.toList = c :: cs) (other : c ≠ '#') :
    readLine r raw = readInstruction (String.ofList (c :: cs)) { r with inDirectives := false } := by
  unfold readLine
  rw [chars]
  split
  · next none => cases none
  · next same =>
    cases same
    exact absurd rfl other
  · rfl

/-- What a line does, by what it is. -/
def act (line : String) (r : Reading) : Look → Except DockerfileProblem Reading
  | .blank => .ok { r with inDirectives := false }
  | .comment syntax_ => if r.inDirectives && syntax_ then .error (.externalFrontend line) else .ok r
  | .base rest => readFrom line rest { r with inDirectives := false }
  | .copy words => readCopy line words { r with inDirectives := false }
  | .other => .ok { r with inDirectives := false }

theorem readLine_look : readLine r raw = act (String.ofList (trimChars raw.toList)) r (look raw) := by
  cases chars : trimChars raw.toList with
  | nil =>
    unfold readLine look
    rw [chars]
    rfl
  | cons c cs =>
    by_cases comment : c = '#'
    · unfold readLine look
      rw [chars, comment]
      rfl
    · rw [readLine_instruction chars comment, look_instruction chars comment, readInstruction, String.toList_ofList]
      cases splitWords [] (c :: cs) with
      | nil => rfl
      | cons op words =>
        show (if _ then _ else if _ then _ else _) = act _ _ (if _ then _ else if _ then _ else _)
        split
        · rfl
        · split <;> rfl

/-! ## One line -/

theorem Read.snoc (read : Read before r) (seenFrom : r'.seenFrom = true ↔ r.seenFrom = true ∨ ∃ rest, look raw = .base rest)
    (directives : r'.inDirectives = true ↔ r.inDirectives = true ∧ ∃ b, look raw = .comment b)
    (stages : ∀ name, name ∈ r'.stages ↔ name ∈ r.stages ∨ declares raw = some name)
    (count : r'.stageCount = r.stageCount + if opensStage raw then 1 else 0)
    (images : ∀ image, image ∈ r'.images ↔ image ∈ r.images ∨ Names before raw image) : Read (before ++ [raw]) r' where
  seenFrom := by
    rw [seenFrom, read.seenFrom]
    simp only [List.mem_append, List.mem_singleton, or_and_right, exists_or, exists_eq_left]
  directives := by
    rw [directives, read.directives, List.forall_mem_append, List.forall_mem_singleton]
  stages name := by
    rw [stages, read.stages]
    simp only [List.mem_append, List.mem_singleton, or_and_right, exists_or, exists_eq_left]
  count := by rw [count, read.count, List.countP_append, List.countP_singleton]
  images image := by rw [images, read.images, split_snoc]

/-- The check takes the name for a stage's. -/
def Staged (r : Reading) (image : String) : Prop :=
  asciiLower image ∈ r.stages ∨ (Wire.parseUnsigned 10 (UInt64.size - 1) image).any (· < r.stageCount) = true

/-- A source is added unless it is a stage. -/
theorem added_source (r : Reading) (source : String) : ∃ added,
    (if r.stages.contains (asciiLower source) ||
        (Wire.parseUnsigned 10 (UInt64.size - 1) source).any (· < r.stageCount) then r
      else { r with images := insertName source r.images }) = { r with images := added } ∧
      ∀ image, image ∈ added ↔ image ∈ r.images ∨ image = source ∧ ¬ Staged r source := by
  by_cases staged : Staged r source
  · refine ⟨r.images, if_pos (Bool.or_eq_true_iff.mpr (staged.imp_left List.contains_iff_mem.mpr)), fun image => ?_⟩
    exact (or_iff_left fun both => both.2 staged).symm
  · have test : ¬ (r.stages.contains (asciiLower source) ||
        (Wire.parseUnsigned 10 (UInt64.size - 1) source).any (· < r.stageCount)) = true :=
      fun test => staged ((Bool.or_eq_true_iff.mp test).imp_left List.contains_iff_mem.mp)
    refine ⟨_, if_neg test, fun image => ?_⟩
    rw [mem_insertName, and_iff_left staged, or_comm]

theorem readCopy_cases (line : String) (words : List String) (r : Reading) :
    (∃ source ∈ sources words, isVariable source = true) ∧ (∃ p, readCopy line words r = .error p) ∨
      (¬ ∃ source ∈ sources words, isVariable source = true) ∧ ∃ images, readCopy line words r = .ok { r with images := images } ∧
        ∀ image, image ∈ images ↔ image ∈ r.images ∨ image ∈ sources words ∧ ¬ Staged r image := by
  induction words generalizing r with
  | nil => exact .inr ⟨by rintro ⟨_, ⟨⟩, _⟩, r.images, rfl,
      fun image => ⟨.inl, fun either => either.elim id fun both => by cases both.1⟩⟩
  | cons word words ih =>
    cases strips : Wire.stripPrefix "--from=" word with
    | none =>
      have same : sources (word :: words) = sources words := List.filterMap_cons_none strips
      have goes : readCopy line (word :: words) r = readCopy line words r := by rw [readCopy, strips]
      rw [same, goes]
      exact ih r
    | some source =>
      have both : sources (word :: words) = source :: sources words := List.filterMap_cons_some strips
      rw [both]
      by_cases variable_ : isVariable source = true
      · refine .inl ⟨⟨source, List.mem_cons_self, variable_⟩, .variableImage line, ?_⟩
        rw [readCopy, strips]
        exact if_pos variable_
      · obtain ⟨added, step, there⟩ := added_source r source
        have goes : readCopy line (word :: words) r = readCopy line words { r with images := added } := by
          rw [readCopy, strips, ← step]
          exact if_neg variable_
        rw [goes]
        rcases ih { r with images := added } with ⟨⟨other, inside, holds⟩, refused⟩ | ⟨clean, images, goes, named⟩
        · exact .inl ⟨⟨other, List.mem_cons_of_mem _ inside, holds⟩, refused⟩
        · refine .inr ⟨?_, images, goes, fun image => ?_⟩
          · rintro ⟨other, inside, holds⟩
            rcases List.mem_cons.mp inside with rfl | inside
            · exact variable_ holds
            · exact clean ⟨other, inside, holds⟩
          · rw [named, there, List.mem_cons]
            constructor
            · rintro ((old | ⟨rfl, new⟩) | ⟨inside, new⟩)
              · exact .inl old
              · exact .inr ⟨.inl rfl, new⟩
              · exact .inr ⟨.inr inside, new⟩
            · rintro (old | ⟨rfl | inside, new⟩)
              · exact .inl (.inl old)
              · exact .inl (.inr ⟨rfl, new⟩)
              · exact .inr ⟨inside, new⟩

theorem Read.staged (read : Read before r) : Staged r image ↔
    IsStage before image ∨ (Wire.parseUnsigned 10 (UInt64.size - 1) image).any (· < before.countP opensStage) = true := by
  rw [Staged, read.stages, read.count]
  rfl

/-- A line that opens no stage and names no image. -/
def Quiet (line : String) : Prop := look line = .blank ∨ (∃ b, look line = .comment b) ∨ look line = .other

theorem Quiet.not_base {rest : List String} (quiet : Quiet line) : look line ≠ .base rest := by
  intro base
  rcases quiet with is | ⟨b, is⟩ | is <;> cases is.symm.trans base

theorem Quiet.declares (quiet : Quiet line) : declares line = none := by
  rcases quiet with is | ⟨b, is⟩ | is <;> rw [Dockerfile.declares, is]

theorem Quiet.opensStage (quiet : Quiet line) : opensStage line = false := by
  rcases quiet with is | ⟨b, is⟩ | is <;> rw [Dockerfile.opensStage, is]

theorem Quiet.not_names (quiet : Quiet line) : ¬ Names before line image := by
  rcases quiet with is | ⟨b, is⟩ | is <;> rw [Names, is] <;> exact id

theorem Quiet.not_variable (quiet : Quiet line) : ¬ HasVariable line := by
  rcases quiet with is | ⟨b, is⟩ | is <;> rw [HasVariable, is] <;> exact id

theorem Read.quiet {d : Bool} (read : Read before r) (quiet : Quiet raw)
    (directives : d = true ↔ r.inDirectives = true ∧ ∃ b, look raw = .comment b) :
    Read (before ++ [raw]) { r with inDirectives := d } := by
  refine read.snoc ?_ directives (fun name => ?_) ?_ fun image => ?_
  · exact (or_iff_left fun ⟨rest, base⟩ => quiet.not_base base).symm
  · rw [quiet.declares]
    exact (or_iff_left nofun).symm
  · rw [quiet.opensStage]
    rfl
  · exact (or_iff_left quiet.not_names).symm

theorem Read.base {rest : List String} (read : Read before r) (is : look raw = .base rest) (line : String) :
    HasVariable raw ∧ (∃ p, readFrom line rest { r with inDirectives := false } = .error p) ∨
      ¬ HasVariable raw ∧ ∃ r', readFrom line rest { r with inDirectives := false } = .ok r' ∧ Read (before ++ [raw]) r' := by
  have base : ∃ rest, look raw = .base rest := ⟨rest, is⟩
  have noComment : false = true ↔ r.inDirectives = true ∧ ∃ b, look raw = .comment b :=
    iff_of_false Bool.false_ne_true fun ⟨_, b, comment⟩ => by cases is.symm.trans comment
  cases rest with
  | nil =>
    refine .inr ⟨?_, _, rfl, read.snoc (iff_of_true rfl (.inr base)) noComment (fun name => ?_) ?_ fun image => ?_⟩
    · rw [HasVariable, is]
      rintro ⟨_, ⟨⟩, _⟩
    · rw [declares, is]
      exact (or_iff_left nofun).symm
    · rw [opensStage, is]
      rfl
    · rw [Names, is]
      exact (or_iff_left fun ⟨head, _⟩ => by cases head).symm
  | cons image more =>
    by_cases variable_ : isVariable image = true
    · refine .inl ⟨?_, .variableImage line, if_pos variable_⟩
      rw [HasVariable, is]
      exact ⟨image, rfl, variable_⟩
    · refine .inr ⟨?_, _, if_neg variable_, read.snoc (iff_of_true rfl (.inr base)) noComment (fun name => ?_) ?_ fun name => ?_⟩
      · rw [HasVariable, is]
        rintro ⟨_, ⟨⟩, holds⟩
        exact variable_ holds
      · rw [declares, is]
        match more with
        | [] => exact (or_iff_left nofun).symm
        | [_] => exact (or_iff_left nofun).symm
        | as_ :: stage :: _ =>
          show name ∈ (if asciiLower as_ = "as" then _ else _) ↔
            name ∈ r.stages ∨ (if asciiLower as_ = "as" then _ else _) = some name
          split
          · rw [mem_insertName, or_comm, Option.some.injEq, eq_comm]
          · exact (or_iff_left nofun).symm
      · rw [opensStage, is]
        rfl
      · have names : Names before raw name ↔ image = name ∧ asciiLower name ≠ "scratch" ∧ asciiLower name ∉ r.stages := by
          rw [Names, is, read.stages]
          exact and_congr_left' (Option.some_inj)
        rw [names]
        show name ∈ (if (decide (asciiLower image = "scratch") || r.stages.contains (asciiLower image)) = true then _ else _) ↔ _
        split
        next inner =>
          refine (or_iff_left ?_).symm
          rintro ⟨rfl, image_, new⟩
          rw [Bool.or_eq_true, decide_eq_true_iff, List.contains_iff_mem] at inner
          exact inner.elim image_ new
        next outer =>
          rw [Bool.or_eq_true, decide_eq_true_iff, List.contains_iff_mem, not_or] at outer
          rw [mem_insertName, or_comm]
          refine or_congr_right ⟨?_, fun both => both.1.symm⟩
          rintro rfl
          exact ⟨rfl, outer⟩

theorem Read.copy {words : List String} (read : Read before r) (is : look raw = .copy words) (line : String) :
    HasVariable raw ∧ (∃ p, readCopy line words { r with inDirectives := false } = .error p) ∨
      ¬ HasVariable raw ∧ ∃ r', readCopy line words { r with inDirectives := false } = .ok r' ∧ Read (before ++ [raw]) r' := by
  have noComment : false = true ↔ r.inDirectives = true ∧ ∃ b, look raw = .comment b :=
    iff_of_false Bool.false_ne_true fun ⟨_, b, comment⟩ => by cases is.symm.trans comment
  have hasVariable : HasVariable raw ↔ ∃ source ∈ sources words, isVariable source = true := by rw [HasVariable, is]
  rw [hasVariable]
  rcases readCopy_cases line words { r with inDirectives := false } with refused | ⟨clean, images, goes, named⟩
  · exact .inl refused
  · refine .inr ⟨clean, _, goes, read.snoc ?_ noComment (fun name => ?_) ?_ fun image => ?_⟩
    · exact (or_iff_left fun ⟨rest, base⟩ => by cases is.symm.trans base).symm
    · rw [declares, is]
      exact (or_iff_left nofun).symm
    · rw [opensStage, is]
      rfl
    · have staged : Staged { r with inDirectives := false } image ↔ _ := read.staged
      rw [named, staged, not_or, Names, is]

/-- What is read of one more line, or that it is refused. -/
theorem Read.step (read : Read before r) (raw : String) : RefusedAfter before raw ∧ (∃ p, readLine r raw = .error p) ∨
    ¬ RefusedAfter before raw ∧ ∃ r', readLine r raw = .ok r' ∧ Read (before ++ [raw]) r' := by
  rw [readLine_look]
  have hasVariable : look raw ≠ .comment true → (RefusedAfter before raw ↔ HasVariable raw) := fun other =>
    or_iff_right fun both => other both.1
  cases is : look raw with
  | blank =>
    have quiet : Quiet raw := .inl is
    rw [hasVariable (by rw [is]; exact nofun)]
    refine .inr ⟨quiet.not_variable, _, rfl, read.quiet quiet ?_⟩
    exact iff_of_false Bool.false_ne_true fun ⟨_, b, comment⟩ => by cases is.symm.trans comment
  | comment syntax_ =>
    have quiet : Quiet raw := .inr (.inl ⟨syntax_, is⟩)
    have refused : RefusedAfter before raw ↔ (r.inDirectives && syntax_) = true := by
      rw [RefusedAfter, or_iff_left quiet.not_variable, is, ← read.directives, Bool.and_eq_true, Look.comment.injEq, and_comm]
    rw [refused, act]
    split
    next test => exact .inl ⟨test, _, rfl⟩
    next test => exact .inr ⟨test, r, rfl, read.quiet (d := r.inDirectives) quiet (and_iff_left ⟨syntax_, is⟩).symm⟩
  | base rest =>
    rw [hasVariable (by rw [is]; exact nofun)]
    exact read.base is _
  | copy words =>
    rw [hasVariable (by rw [is]; exact nofun)]
    exact read.copy is _
  | other =>
    have quiet : Quiet raw := .inr (.inr is)
    rw [hasVariable (by rw [is]; exact nofun)]
    refine .inr ⟨quiet.not_variable, _, rfl, read.quiet quiet ?_⟩
    exact iff_of_false Bool.false_ne_true fun ⟨_, b, comment⟩ => by cases is.symm.trans comment

/-! ## The text -/

/-- A line that is refused. -/
def Refused (lines : List String) : Prop := ∃ a line b, lines = a ++ line :: b ∧ RefusedAfter a line

/-- The image is named in the open: by a line that is read by itself. -/
def InTheOpen (lines : List String) (image : String) : Prop := ∃ a line b, lines = a ++ line :: b ∧ Names a line image

theorem Read.run (read : Read before r) (clean : ¬ Refused before) (lines : List String) :
    Refused (before ++ lines) ∧ (∃ p, lines.foldlM readLine r = .error p) ∨
      ¬ Refused (before ++ lines) ∧ ∃ r', lines.foldlM readLine r = .ok r' ∧ Read (before ++ lines) r' := by
  induction lines generalizing before r with
  | nil =>
    rw [List.append_nil]
    exact .inr ⟨clean, r, rfl, read⟩
  | cons line lines ih =>
    rw [List.foldlM_cons]
    rcases read.step line with ⟨refused, p, stops⟩ | ⟨passes, r', goes, reads⟩
    · exact .inl ⟨⟨before, line, lines, rfl, refused⟩, p, by rw [stops]; rfl⟩
    · rw [goes, List.append_cons]
      exact ih reads fun refused => (split_snoc.mp refused).elim clean passes

theorem requiredImages_cases (text : String) : (∃ p, requiredImages text = .error p) ∧
      (Refused (Wire.fields '\n' text) ∨ ¬ ∃ line ∈ Wire.fields '\n' text, ∃ rest, look line = .base rest) ∨
    (¬ Refused (Wire.fields '\n' text) ∧ ∃ line ∈ Wire.fields '\n' text, ∃ rest, look line = .base rest) ∧
      ∃ images, requiredImages text = .ok images ∧ ∀ image, image ∈ images ↔ InTheOpen (Wire.fields '\n' text) image := by
  have start : Read [] ⟨[], [], false, true, 0⟩ := by
    refine ⟨iff_of_false nofun ?_, iff_of_true rfl nofun, fun name => iff_of_false nofun ?_, rfl,
      fun image => iff_of_false nofun ?_⟩
    · rintro ⟨_, ⟨⟩, _⟩
    · rintro ⟨_, ⟨⟩, _⟩
    · rintro ⟨a, line, b, same, _⟩
      exact absurd same.symm (List.append_ne_nil_of_right_ne_nil a (List.cons_ne_nil line b))
  have none : ¬ Refused [] := by
    rintro ⟨a, line, b, same, _⟩
    exact absurd same.symm (List.append_ne_nil_of_right_ne_nil a (List.cons_ne_nil line b))
  rcases start.run none (Wire.fields '\n' text) with ⟨refused, p, stops⟩ | ⟨clean, r, goes, read⟩
  · exact .inl ⟨⟨p, by rw [requiredImages, stops]; rfl⟩, .inl refused⟩
  · rw [List.nil_append] at clean read
    have result : requiredImages text = if r.seenFrom then .ok r.images else .error .empty := by rw [requiredImages, goes]; rfl
    rw [result]
    split
    next seen => exact .inr ⟨⟨clean, read.seenFrom.mp seen⟩, r.images, rfl, read.images⟩
    next unseen => exact .inl ⟨⟨_, rfl⟩, .inr fun base => unseen (read.seenFrom.mpr base)⟩

end

/-! ## What a build refers to -/

variable (expand : String → Option String) (text : String)

/-- What the build refers to is in the set. -/
def Complete : Prop := ∀ images, requiredImages text = .ok images → ∀ image ∈ Frontend.references expand text, image ∈ images

/-- When all of the set is there, all that the build refers to is. -/
def NeverPulls : Prop :=
  ∀ present : String → Prop, (∃ images, requiredImages text = .ok images ∧ ∀ image ∈ images, present image) →
    ∀ image ∈ Frontend.references expand text, present image

/-- The text is refused, or each image that the build refers to is named in the open. -/
def Covered : Prop :=
  Refused (Wire.fields '\n' text) ∨ (¬ ∃ line ∈ Wire.fields '\n' text, ∃ rest, look line = .base rest) ∨
    ∀ image ∈ Frontend.references expand text, InTheOpen (Wire.fields '\n' text) image

variable {expand text}

theorem complete_neverPulls (complete : Complete expand text) : NeverPulls expand text := by
  rintro present ⟨images, set, all⟩ image refers
  exact all image (complete images set image refers)

/-- **The check finds all base images** of a Dockerfile exactly when it is covered. -/
theorem complete_iff (expand : String → Option String) (text : String) :
    Complete expand text ∧ NeverPulls expand text ↔ Covered expand text := by
  rcases requiredImages_cases text with ⟨⟨p, stops⟩, why⟩ | ⟨⟨clean, base⟩, images, set, named⟩
  · have complete : Complete expand text := fun images set => by cases stops.symm.trans set
    exact iff_of_true ⟨complete, complete_neverPulls complete⟩ (why.elim .inl fun none => .inr (.inl none))
  · constructor
    · rintro ⟨complete, -⟩
      exact .inr (.inr fun image refers => (named image).mp (complete images set image refers))
    · rintro (refused | none | covered)
      · exact absurd refused clean
      · exact absurd base none
      · have complete : Complete expand text := by
          intro images' set' image refers
          cases Except.ok.inj (set.symm.trans set')
          exact (named image).mpr (covered image refers)
        exact ⟨complete, complete_neverPulls complete⟩

/-- An image that only a mount names. -/
def mounting : String := "FROM alpine\nRUN --mount=type=bind,from=tools,target=/t true"

theorem incomplete_mount : ¬ ∀ text, Complete some text ∧ NeverPulls some text := by
  intro complete
  have set : (requiredImages mounting).toOption = some ["alpine"] := by decide +kernel
  have refers : "tools" ∈ Frontend.references some mounting := by decide +kernel
  cases found : requiredImages mounting with
  | error p =>
    rw [found] at set
    cases set
  | ok images =>
    rw [found] at set
    cases set
    exact absurd (List.mem_singleton.mp ((complete mounting).1 _ found "tools" refers)) (by decide)

end Harpoon.Docker.Dockerfile
