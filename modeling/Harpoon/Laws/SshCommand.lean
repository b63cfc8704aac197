import Harpoon.Git.Workspaces
import Harpoon.Journal.Frame
import Harpoon.Shell.Words

/-!
# What a shell and ssh read in the command

The key's path is one word for the shell, whatever it has in it, and so is the option with the pinned hosts, whose
value ssh takes for one path. Each text that is put into the command is followed through the states of its reader.
-/

namespace Harpoon.Git

open Wire (utf8)
open Shell (Reading Quoting step words finish isOrdinary bareStep)
open Shell.Ssh (Arguments argumentStep arguments inside isBlank isKeyword isTrailing separated)

section

variable {r : Reading} {ws : List (List Char)} {w cs : List Char} {c : Char} {s path name : String}

/-! ## The shell -/

theorem step_ordinary (bare : r.quoting = .bare) (ordinary : isOrdinary c = true) : step r c = some (r.add [c] .bare) := by
  have other : ∀ x ∈ [' ', '\t', '\'', '"', '\\', '#'], c ≠ x := by
    rintro x mem rfl
    have special : ∀ x ∈ [' ', '\t', '\'', '"', '\\', '#'], isOrdinary x = false := Wire.forall_mem_of_all (by decide)
    rw [special _ mem] at ordinary
    cases ordinary
  rw [step, bare]
  simp [bareStep, other, ordinary]

theorem read_ordinary (bare : r.quoting = .bare) (ordinary : ∀ c ∈ cs, isOrdinary c = true) (some_ : cs ≠ []) :
    cs.foldlM step r = some (r.add cs .bare) := by
  induction cs generalizing r with
  | nil => exact absurd rfl some_
  | cons c cs ih =>
    rw [List.foldlM_cons, step_ordinary bare (ordinary c List.mem_cons_self)]
    show cs.foldlM step (r.add [c] .bare) = _
    cases cs with
    | nil => rfl
    | cons d ds =>
      rw [ih rfl (fun e mem => ordinary e (List.mem_cons_of_mem _ mem)) (by simp)]
      simp [Reading.add]

/-- What stands between single quotes, with each single quote outside of them behind a backslash. -/
def singleQuoted (cs : List Char) : List Char := cs.flatMap fun c => if c = '\'' then ['\'', '\\', '\'', '\''] else [c]

theorem read_quoted : (singleQuoted cs ++ ['\'']).foldlM step ⟨ws, some w, .single⟩ =
    some ⟨ws, some (w ++ cs), .bare⟩ := by
  induction cs generalizing w with
  | nil => simp [singleQuoted, step, Reading.add]
  | cons c cs ih =>
    rw [singleQuoted, List.flatMap_cons, List.append_assoc, ← singleQuoted, List.foldlM_append]
    split
    · next quote =>
      have one : ['\'', '\\', '\'', '\''].foldlM step ⟨ws, some w, .single⟩ = some ⟨ws, some (w ++ ['\'']), .single⟩ := by
        simp [step, bareStep, Reading.add]
      rw [one]
      show List.foldlM step _ _ = _
      rw [ih, quote, List.append_assoc]
      rfl
    · next other =>
      have one : [c].foldlM step ⟨ws, some w, .single⟩ = some ⟨ws, some (w ++ [c]), .single⟩ := by
        simp [step, Reading.add, other]
      rw [one]
      show List.foldlM step _ _ = _
      rw [ih, List.append_assoc]
      rfl

theorem read_append {r' : Reading} {xs : List Char} (first : xs.foldlM step r = some r') (ys : List Char) :
    (xs ++ ys).foldlM step r = ys.foldlM step r' := by
  rw [List.foldlM_append, first]
  rfl

/-- A word behind a blank. -/
def entered (r : Reading) (t : List Char) : Reading := ⟨r.word.toList ++ r.words, some t, .bare⟩

theorem read_words {ts : List (List Char)} (bare : r.quoting = .bare) (ordinary : ∀ t ∈ ts, t ≠ [] ∧ ∀ c ∈ t, isOrdinary c = true) :
    (ts.flatMap (' ' :: ·)).foldlM step r = some (ts.foldl entered r) := by
  induction ts generalizing r with
  | nil => rfl
  | cons t ts ih =>
    have blank : step r ' ' = some (r.done .bare) := by
      rw [step, bare]
      rfl
    have word := read_ordinary (r := r.done .bare) rfl (ordinary t List.mem_cons_self).2 (ordinary t List.mem_cons_self).1
    rw [List.flatMap_cons, List.foldlM_append, List.foldlM_cons, blank]
    show ((t.foldlM step (r.done .bare)).bind fun r => (ts.flatMap (' ' :: ·)).foldlM step r) = _
    rw [word, Option.bind_some, ih rfl fun u mem => ordinary u (List.mem_cons_of_mem _ mem)]
    simp [entered, Reading.add, Reading.done]

theorem ordinary_of_plain (plain : isPlainText s = true) : ∀ c ∈ s.toList, isOrdinary c = true := by
  intro c mem
  have := List.all_eq_true.mp plain c mem
  simp only [Bool.or_eq_true, decide_eq_true_eq] at this
  rcases this with (((alnum | rfl) | rfl) | rfl) | rfl
  · rw [isOrdinary, alnum, Bool.true_or]
  all_goals decide

theorem shWord_quoted (unusual : ¬ isPlainText s = true) : (shWord s).toList = ['\''] ++ (singleQuoted s.toList ++ ['\'']) := by
  have quoted : (String.ofList (singleQuoted s.toList)).toList = singleQuoted s.toList := String.toList_ofList
  rw [shWord, if_neg unusual, String.toList_append, String.toList_append]
  show "'".toList ++ ((String.ofList (singleQuoted s.toList)).toList ++ "'".toList) = _
  rw [quoted]
  rfl

/-- A quoted text is read as that text. -/
theorem read_shWord (some_ : s ≠ "") : (shWord s).toList.foldlM step ⟨ws, none, .bare⟩ = some ⟨ws, some s.toList, .bare⟩ := by
  by_cases plain : isPlainText s = true
  · rw [shWord, if_pos plain]
    exact read_ordinary rfl (ordinary_of_plain plain) (by simpa using some_)
  · rw [shWord_quoted plain, List.foldlM_append]
    exact read_quoted

/-- An option, as ssh is given it. -/
def optionText (name path : String) : String :=
  if isPlainText path then name ++ ("=" ++ path) else name ++ ("=\"" ++ (path ++ "\""))

theorem read_sshOption (named : ∀ c ∈ name.toList, isOrdinary c = true) :
    (sshOption name path).toList.foldlM step ⟨ws, none, .bare⟩ =
    some ⟨ws, some (optionText name path).toList, .bare⟩ := by
  have some_ (rest : String) : name ++ ("=" ++ rest) ≠ "" := by
    intro none
    have := congrArg String.length none
    simp at this
  rw [sshOption, optionText]
  split
  · next plain =>
    refine read_ordinary rfl (fun c mem => ?_) ?_
    · rw [String.toList_append, String.toList_append, List.mem_append, List.mem_append] at mem
      rcases mem with mem | mem | mem
      · exact named c mem
      · obtain rfl := List.mem_singleton.mp (show c ∈ ['='] from mem)
        decide
      · exact ordinary_of_plain plain c mem
    · simp
  · exact read_shWord (by simp)

/-! ## The options of ssh -/

theorem inside_plain {a : Arguments} (other : c ≠ '\\' ∧ c ≠ '"')
    (quiet : a.quote = some '"' ∨ a.quote = none ∧ c ≠ ' ' ∧ c ≠ '\t' ∧ c ≠ '\'') :
    inside a w c = { a with begun := some (w ++ [c]) } := by
  rcases quiet with quote | ⟨bare, quiet⟩
  · simp [inside, quote, other, Ne.symm other.2]
  · simp [inside, bare, other, quiet]

/-- Characters of an argument that mean themselves. -/
theorem fold_plain {ended : List (List Char)} {quote : Option Char} (other : ∀ c ∈ cs, c ≠ '\\' ∧ c ≠ '"')
    (quiet : ∀ c ∈ cs, quote = some '"' ∨ quote = none ∧ c ≠ ' ' ∧ c ≠ '\t' ∧ c ≠ '\'') :
    cs.foldl argumentStep ⟨ended, some w, quote, false, false⟩ = ⟨ended, some (w ++ cs), quote, false, false⟩ := by
  induction cs generalizing w with
  | nil => rw [List.append_nil]; rfl
  | cons c cs ih =>
    have one : argumentStep ⟨ended, some w, quote, false, false⟩ c = ⟨ended, some (w ++ [c]), quote, false, false⟩ :=
      inside_plain (a := ⟨ended, some w, quote, false, false⟩) (other c List.mem_cons_self) (quiet c List.mem_cons_self)
    rw [List.foldl_cons, one, ih (fun d mem => other d (List.mem_cons_of_mem _ mem)) fun d mem =>
      quiet d (List.mem_cons_of_mem _ mem),
      List.append_assoc]
    rfl

theorem plain_char (plain : isPlainText s = true) :
    ∀ c ∈ s.toList, (c ≠ '\\' ∧ c ≠ '"') ∧ c ≠ ' ' ∧ c ≠ '\t' ∧ c ≠ '\'' ∧ c ≠ '#' := by
  intro c mem
  have ordinary := ordinary_of_plain plain c mem
  refine ⟨⟨?_, ?_⟩, ?_, ?_, ?_, ?_⟩
  all_goals
    rintro rfl
    revert ordinary
    decide

/-- An ordinary path is an argument as it stands. -/
theorem arguments_plain (plain : isPlainText s = true) (some_ : s ≠ "") : arguments s.toList = some [s] := by
  have chars := plain_char plain
  have back : String.ofList s.toList = s := String.ofList_toList
  revert chars back
  cases all : s.toList with
  | nil => exact absurd (String.toList_eq_nil_iff.mp all) some_
  | cons c cs =>
    intro chars back
    obtain ⟨⟨slash, quote⟩, blank, tab, single, number⟩ := chars c List.mem_cons_self
    have first : argumentStep ⟨[], none, none, false, false⟩ c = ⟨[], some [c], none, false, false⟩ := by
      show (if c = ' ' ∨ c = '\t' then _ else if c = '#' then _ else inside _ [] c) = _
      rw [if_neg (not_or.mpr ⟨blank, tab⟩), if_neg number, inside_plain ⟨slash, quote⟩ (.inr ⟨rfl, blank, tab, single⟩)]
      rfl
    have rest : cs.foldl argumentStep ⟨[], some [c], none, false, false⟩ = ⟨[], some ([c] ++ cs), none, false, false⟩ :=
      fold_plain (fun d mem => (chars d (List.mem_cons_of_mem _ mem)).1) fun d mem =>
        .inr ⟨rfl, (chars d (List.mem_cons_of_mem _ mem)).2.1, (chars d (List.mem_cons_of_mem _ mem)).2.2.1,
        (chars d (List.mem_cons_of_mem _ mem)).2.2.2.1⟩
    rw [arguments, List.foldl_cons, first, rest]
    show some [String.ofList (c :: cs ++ [])] = _
    rw [List.append_nil, back]

/-- What stands between double quotes is one argument. -/
theorem arguments_quoted (other : ∀ c ∈ cs, c ≠ '\\' ∧ c ≠ '"') : arguments ('"' :: (cs ++ ['"'])) = some [String.ofList cs] := by
  have first : argumentStep ⟨[], none, none, false, false⟩ '"' = ⟨[], some [], some '"', false, false⟩ := by decide
  have last : argumentStep ⟨[], some cs, some '"', false, false⟩ '"' = ⟨[], some cs, none, false, false⟩ := by
    simp [argumentStep, inside]
  rw [arguments, List.foldl_cons, first, List.foldl_append, fold_plain other (fun _ _ => .inl rfl), List.nil_append,
    List.foldl_cons, last]
  show some [String.ofList (cs ++ [])] = _
  rw [List.append_nil]

/-- The keyword of the option is read, and the arguments behind it. -/
theorem option_read {rest : List Char} (last : rest.getLast?.any isTrailing = false) (first : rest.head?.any isBlank = false)
    (sign : rest.head? ≠ some '=') (some_ : rest ≠ []) : Shell.Ssh.option (String.ofList ("UserKnownHostsFile=".toList ++ rest)) =
      (arguments rest).map fun arguments => ("UserKnownHostsFile", arguments) := by
  have chars : (String.ofList ("UserKnownHostsFile=".toList ++ rest)).toList = "UserKnownHostsFile=".toList ++ rest :=
    String.toList_ofList
  have kept : (("UserKnownHostsFile=".toList ++ rest).reverse.dropWhile isTrailing).reverse =
      "UserKnownHostsFile=".toList ++ rest := by
    rw [List.reverse_append]
    cases back : rest.reverse with
    | nil => exact absurd (List.reverse_eq_nil_iff.mp back) some_
    | cons c cs =>
      rw [← List.head?_reverse, back] at last
      have solid : ¬ isTrailing c = true := by simpa using last
      rw [List.cons_append, List.dropWhile_cons_of_neg solid, ← List.cons_append, ← back, ← List.reverse_append,
        List.reverse_reverse]
  have keyword : ("UserKnownHostsFile=".toList ++ rest).takeWhile isKeyword = "UserKnownHostsFile".toList := rfl
  have rest_ : ("UserKnownHostsFile=".toList ++ rest).dropWhile isKeyword = '=' :: rest := rfl
  have values : separated ('=' :: rest) = rest := by
    have dropped : rest.dropWhile isBlank = rest := by
      cases rest with
      | nil => rfl
      | cons c cs => exact List.dropWhile_cons_of_neg (by simpa using first)
    exact dropped
  rw [Shell.Ssh.option, chars, kept, keyword, rest_, values]
  refine if_neg ?_
  rintro (none | comment | quote | none)
  · cases none
  · cases comment
  · cases quote
  · exact some_ none

/-- The value of the option is read as the path, and nothing else is read. -/
theorem option_optionText (other : ∀ c ∈ path.toList, c ≠ '\\' ∧ c ≠ '"') (some_ : path ≠ "") :
    Shell.Ssh.option (optionText "UserKnownHostsFile" path) = some ("UserKnownHostsFile", [path]) := by
  rw [optionText]
  split
  · next plain =>
    have text : "UserKnownHostsFile" ++ ("=" ++ path) = String.ofList ("UserKnownHostsFile=".toList ++ path.toList) := by
      rw [String.ofList_append, String.ofList_toList, String.ofList_toList, ← String.append_assoc]
      rfl
    have solid : ∀ c ∈ path.toList, isTrailing c = false ∧ isBlank c = false ∧ c ≠ '=' := by
      intro c mem
      have ordinary := List.all_eq_true.mp plain c mem
      have blank : isTrailing c = false := by
        rw [Bool.eq_false_iff]
        intro trailing
        simp only [isTrailing, isBlank, List.contains_eq_mem, List.mem_cons, List.not_mem_nil, or_false, decide_eq_true_eq,
          Bool.or_eq_true]
          at trailing
        rcases trailing with (rfl | rfl | rfl | rfl) | rfl <;> revert ordinary <;> decide
      refine ⟨blank, (Bool.or_eq_false_iff.mp blank).1, ?_⟩
      rintro rfl
      revert ordinary
      decide
    rw [text, option_read, arguments_plain plain some_]
    · rfl
    · cases last : path.toList.getLast? with
      | none => rfl
      | some c => exact (solid c (List.mem_of_getLast? last)).1
    · cases first : path.toList.head? with
      | none => rfl
      | some c => exact (solid c (List.mem_of_head? first)).2.1
    · exact fun sign => (solid '=' (List.mem_of_head? sign)).2.2 rfl
    · simpa using some_
  · next unusual =>
    have text : "UserKnownHostsFile" ++ ("=\"" ++ (path ++ "\"")) =
        String.ofList ("UserKnownHostsFile=".toList ++ '"' :: (path.toList ++ ['"'])) := by
      rw [← String.toList_inj, String.toList_ofList]
      simp
    rw [text, option_read, arguments_quoted other, String.ofList_toList]
    · rfl
    · rw [← List.cons_append, List.getLast?_append]
      rfl
    · rfl
    · simp
    · simp

end

/-! ## Workspaces -/

section

variable {parent : Wire.Bytes} {nonce : String} {made : Except String Unit} {ws : Workspace}

theorem create_text (created : Workspace.create parent nonce made = .ok ws) : ∀ c ∈ ws.root.toList, c ≠ '\\' ∧ c ≠ '"' := by
  unfold Workspace.create at created
  split at created
  · cases created
  · split at created
    · cases created
    · split at created
      · cases created
      · next text _ plain =>
        split at created
        · cases created
        · cases created
          intro c mem
          have other := List.any_eq_false.mp (Bool.eq_false_iff.mpr plain) c mem
          simp only [Bool.or_eq_true, decide_eq_true_eq, not_or] at other
          exact ⟨other.1.1.2, other.1.1.1.2⟩

/-- The options in front of the pinned hosts. -/
def leadingOptions : List String := ["-o", "IdentitiesOnly=yes", "-o", "IdentityAgent=none", "-o", "BatchMode=yes", "-o",
    "PasswordAuthentication=no",
  "-o", "StrictHostKeyChecking=yes", "-o"]

/-- The options behind them. -/
def trailingOptions : List String := ["-o", "GlobalKnownHostsFile=/dev/null", "-o", "ConnectTimeout=20"]

theorem ordinary_fixed {ts : List String} (each : (ts.all fun t => t ≠ "" && t.toList.all isOrdinary) = true) :
    ∀ t ∈ ts.map String.toList, t ≠ [] ∧ ∀ c ∈ t, isOrdinary c = true := by
  intro t mem
  obtain ⟨u, inside, rfl⟩ := List.mem_map.mp mem
  have this := List.all_eq_true.mp each u inside
  rw [Bool.and_eq_true, decide_eq_true_eq] at this
  exact ⟨by simpa using this.1, List.all_eq_true.mp this.2⟩

/-- The words of the command. -/
theorem words_sshCommand (credDir : String) : words (sshCommand credDir) = some ("ssh" :: "-i" :: (credDir ++ "/id") ::
    (leadingOptions ++ optionText "UserKnownHostsFile" (credDir ++ "/known_hosts") :: trailingOptions)) := by
  have head : "ssh -i ".toList.foldlM step .start = some ⟨["-i".toList, "ssh".toList], none, .bare⟩ := rfl
  have key (ws : List (List Char)) : (shWord (credDir ++ "/id")).toList.foldlM step ⟨ws, none, .bare⟩ =
      some ⟨ws, some (credDir ++ "/id").toList, .bare⟩ := read_shWord (by simp)
  have text : " -o IdentitiesOnly=yes -o IdentityAgent=none -o BatchMode=yes -o PasswordAuthentication=no -o StrictHostKeyChecking=yes -o ".toList =
      (leadingOptions.map String.toList).flatMap (' ' :: ·) ++ [' '] := by decide +kernel
  have text' : " -o GlobalKnownHostsFile=/dev/null -o ConnectTimeout=20".toList =
      (trailingOptions.map String.toList).flatMap (' ' :: ·) := by
    decide +kernel
  have fixed (ws : List (List Char)) (w : List Char) :
      ((leadingOptions.map String.toList).flatMap (' ' :: ·) ++ [' ']).foldlM step ⟨ws, some w, .bare⟩ =
      some ⟨(leadingOptions.map String.toList).reverse ++ w :: ws, none, .bare⟩ := by
    rw [read_append (read_words rfl (ordinary_fixed (by decide +kernel)))]
    rfl
  have hosts (ws : List (List Char)) :
      (sshOption "UserKnownHostsFile" (credDir ++ "/known_hosts")).toList.foldlM step ⟨ws, none, .bare⟩ =
      some ⟨ws, some (optionText "UserKnownHostsFile" (credDir ++ "/known_hosts")).toList, .bare⟩ :=
    read_sshOption (Wire.forall_mem_of_all (by decide))
  have tail (ws : List (List Char)) (w : List Char) :
      ((trailingOptions.map String.toList).flatMap (' ' :: ·)).foldlM step ⟨ws, some w, .bare⟩ =
      some ⟨"-o".toList :: "GlobalKnownHostsFile=/dev/null".toList :: "-o".toList :: w :: ws, some "ConnectTimeout=20".toList,
        .bare⟩ :=
    read_words rfl (ordinary_fixed (by decide +kernel))
  rw [words, sshCommand, String.toList_append, String.toList_append, String.toList_append, String.toList_append, read_append head,
    read_append (key _), text, text', read_append (fixed _ _), read_append (hosts _), tail]
  show some (("ssh".toList :: "-i".toList :: (credDir ++ "/id").toList :: (leadingOptions.map String.toList ++
    (optionText "UserKnownHostsFile" (credDir ++ "/known_hosts")).toList :: trailingOptions.map String.toList)).map String.ofList) = _
  simp only [List.map_cons, List.map_append, List.map_map, String.ofList_toList]
  rfl

/-- **The command that Git starts ssh with.** A shell reads its words as they are meant, with the key's path as one of
them, and ssh reads the path of the pinned hosts, and nothing else, in the option. -/
theorem sshCommand_read (created : Workspace.create parent nonce made = .ok ws) : ∃ option,
    words (sshCommand ws.cred) = some ("ssh" :: "-i" :: (ws.cred ++ "/id") :: (leadingOptions ++ option :: trailingOptions)) ∧
      Shell.Ssh.option option = some ("UserKnownHostsFile", [ws.cred ++ "/known_hosts"]) := by
  refine ⟨_, words_sshCommand ws.cred, option_optionText (fun c mem => ?_) (by simp)⟩
  rw [Workspace.cred, String.toList_append, String.toList_append, List.mem_append, List.mem_append] at mem
  rcases mem with (mem | mem) | mem
  · exact create_text created c mem
  · revert c
    exact Wire.forall_mem_of_all (by decide)
  · revert c
    exact Wire.forall_mem_of_all (by decide)

/-- The workspace of a folder with a blank and a quote in its name. -/
def spaced : Workspace := ⟨"/Bob's disk/git-ws-1"⟩

theorem sshCommand_read_spaced : ∃ option,
    words (sshCommand spaced.cred) =
      some ("ssh" :: "-i" :: (spaced.cred ++ "/id") :: (leadingOptions ++ option :: trailingOptions)) ∧
      Shell.Ssh.option option = some ("UserKnownHostsFile", [spaced.cred ++ "/known_hosts"]) :=
  have created : Workspace.create (utf8 "/Bob's disk") "1" (.ok ()) = .ok spaced := Journal.ok_of_toOption (by decide +kernel)
  sshCommand_read created

end

end Harpoon.Git
