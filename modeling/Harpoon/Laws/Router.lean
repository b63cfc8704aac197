import Harpoon.Desktop.Router
import Harpoon.Journal.Frame

/-!
# The head of a request, as others read it

The router takes CRLF for the end of a line. The server behind it may take a bare LF for one as well, and
a line that begins with a space or a tab for more of the line before. Both find the one `Host` field by which the
router chose the application exactly when only spaces and tabs pad its value and no other line of the head says
more about it.
-/

namespace Harpoon.Desktop

open Deploy (Route RouteTable)
open Docker.Dockerfile (trimChars)
open Git (lowered isWhitespace)
open Journal (bind_ok)
open Wire (Bytes)

/-! ## Readings -/

def isPad (c : Char) : Bool := c = ' ' || c = '\t'

/-- Without the characters at its end that are chosen. -/
def trimEnd (p : Char → Bool) (cs : List Char) : List Char := (cs.reverse.dropWhile p).reverse

/-- Without the spaces and tabs around it. -/
def unpadded (s : String) : String := String.ofList ((trimEnd isPad s.toList).dropWhile isPad)

/-- What stands behind the colon in a `Host` field. -/
def hostValue (l : String) : Option String :=
  match Wire.splitOnce ':' l with
  | none => none
  | some (k, v) => if lowered (String.ofList (trimEnd isPad k.toList)) = "host" then some v else none

def hostValues (ls : List String) : List String := ls.filterMap hostValue

/-- The values of the `Host` fields among these lines. -/
def hosts (ls : List String) : List String := (hostValues ls).map unpadded

/-- Is the line more of the line before? -/
def continues (l : String) : Bool := l.toList.head?.any isPad

/-- The lines behind a line, each put to the one that it continues. -/
def unfolded (current : String) : List String → List String
  | [] => [current]
  | l :: ls => if continues l then unfolded (current ++ l) ls else current :: unfolded l ls

/-- The first line of the head. -/
def requestLine (text : String) : String := String.ofList ((crlfLines text.toList).headD [])

/-- The lines of the head, where a bare LF ends a line too. -/
def lenientLines (text : String) : List String := (requestLine text :: headLines text).flatMap (Wire.fields '\n')

/-- The `Host` fields where CRLF ends a line. -/
def strictHosts (text : String) : List String := hosts (headLines text)

/-- The fields among the lines of a head. -/
def fieldsOf : List String → List String
  | [] => []
  | l :: ls => (unfolded l ls).tail

/-- The lines up to the first empty one, at which the head has ended for some. -/
def untilEmpty : List String → List String
  | [] => []
  | l :: ls => l :: ls.takeWhile (· ≠ "")

/-- There is one `Host` field in the head, it has the value by which the router chooses the application, and it
stands where everyone sees it: when CRLF ends a line, when LF does and lines are folded, and when
an empty line ends the head then. -/
def ReadsAlike (head : Bytes) : Prop :=
  ∃ text host, Wire.fromUtf8 head = some text ∧ hostOf head = .ok host ∧ strictHosts text = [host] ∧
    hosts (fieldsOf (lenientLines text)) = [host] ∧ hosts (fieldsOf (untilEmpty (lenientLines text))) = [host]

/-- All white space behind the colon of the `Host` field is spaces and tabs; bare LFs and folded lines add nothing to
what is said about the host, but spaces and tabs at the end of it; and no empty line comes before the field. -/
structure PlainHost (text : String) : Prop where
  padded : ∀ v ∈ hostValues (headLines text), ∀ c ∈ v.toList, isWhitespace c = true → isPad c = true
  alone : (hostValues (fieldsOf (lenientLines text))).map (trimEnd isPad ·.toList) =
    (hostValues (headLines text)).map (trimEnd isPad ·.toList)
  reached : ∃ l ∈ (untilEmpty (lenientLines text)).tail, (hostValue l).isSome

/-! ## Trimming -/

section

variable {p : Char → Bool} {as bs cs : List Char}

theorem dropWhile_all (all : ∀ c ∈ as, p c = true) : (as ++ cs).dropWhile p = cs.dropWhile p :=
  List.dropWhile_append_of_pos all

/-- What is cut off at the end. -/
theorem trimEnd_spec (p : Char → Bool) (cs : List Char) :
    ∃ bs, cs = trimEnd p cs ++ bs ∧ ∀ c ∈ bs, p c = true := by
  refine ⟨(cs.reverse.takeWhile p).reverse, ?_, fun c mem => ?_⟩
  · have whole := congrArg List.reverse (List.takeWhile_append_dropWhile (p := p) (l := cs.reverse))
    rw [List.reverse_append, List.reverse_reverse] at whole
    exact whole.symm
  · exact List.all_eq_true.mp List.all_takeWhile c (List.mem_reverse.mp mem)

theorem trimEnd_append (all : ∀ c ∈ bs, p c = true) : trimEnd p (cs ++ bs) = trimEnd p cs := by
  rw [trimEnd, List.reverse_append, dropWhile_all fun c mem => all c (List.mem_reverse.mp mem), trimEnd]

theorem dropWhile_free (free : ∀ c ∈ cs, p c = false) : cs.dropWhile p = cs := by
  cases cs with
  | nil => rfl
  | cons c cs => rw [List.dropWhile_cons, if_neg (by simp [free c (.head _)])]

theorem trimEnd_free (free : ∀ c ∈ cs, p c = false) : trimEnd p cs = cs := by
  rw [trimEnd, dropWhile_free fun c mem => free c (List.mem_reverse.mp mem), List.reverse_reverse]

/-- What is cut off at the start. -/
theorem dropWhile_spec (p : Char → Bool) (cs : List Char) : ∃ as, cs = as ++ cs.dropWhile p ∧ ∀ c ∈ as, p c = true :=
  ⟨cs.takeWhile p, List.takeWhile_append_dropWhile.symm, List.all_eq_true.mp List.all_takeWhile⟩

/-- A text between characters that are cut off. -/
theorem trimmed_between (ahead : ∀ c ∈ as, p c = true) (behind : ∀ c ∈ bs, p c = true) (free : ∀ c ∈ cs, p c = false) :
    (trimEnd p (as ++ (cs ++ bs))).dropWhile p = cs := by
  rw [← List.append_assoc, trimEnd_append behind]
  cases cs with
  | nil =>
    obtain ⟨rest, whole, -⟩ := trimEnd_spec p (as ++ [])
    rw [List.append_nil] at whole ⊢
    have all : ∀ c ∈ trimEnd p as, p c = true := fun c mem => ahead c (whole ▸ List.mem_append_left _ mem)
    have none : (trimEnd p as ++ []).dropWhile p = [] := dropWhile_all all
    rwa [List.append_nil] at none
  | cons c cs =>
    have last : trimEnd p (as ++ c :: cs) = as ++ c :: cs := by
      have whole : ((c :: cs).reverse ++ as.reverse).dropWhile p = (c :: cs).reverse ++ as.reverse := by
        cases reversed : (c :: cs).reverse with
        | nil => cases List.reverse_eq_nil_iff.mp reversed
        | cons d ds =>
          have inside : d ∈ c :: cs := List.mem_reverse.mp (reversed ▸ .head _)
          rw [List.cons_append, List.dropWhile_cons, if_neg (by simp [free d inside])]
      rw [trimEnd, List.reverse_append, whole, ← List.reverse_append, List.reverse_reverse]
    rw [last, dropWhile_all ahead, dropWhile_free free]

/-- Trimming keeps all other characters. -/
theorem filter_trimmed : ((trimEnd p cs).dropWhile p).filter (!p ·) = cs.filter (!p ·) := by
  have none {ds : List Char} (all : ∀ c ∈ ds, p c = true) : ds.filter (!p ·) = [] :=
    List.filter_eq_nil_iff.mpr fun c mem => by simp [all c mem]
  obtain ⟨bs, whole, behind⟩ := trimEnd_spec p cs
  obtain ⟨as, kept, ahead⟩ := dropWhile_spec p (trimEnd p cs)
  calc ((trimEnd p cs).dropWhile p).filter (!p ·)
      = (trimEnd p cs).filter (!p ·) := by
        conv => rhs; rw [kept, List.filter_append, none ahead, List.nil_append]
    _ = cs.filter (!p ·) := by
        conv => rhs; rw [whole, List.filter_append, none behind, List.append_nil]

/-- What can be added to a text so that the trimmed text stays the same. -/
theorem all_of_trimmed (same : (trimEnd p (as ++ bs)).dropWhile p = (trimEnd p as).dropWhile p) :
    ∀ c ∈ bs, p c = true := by
  have kept := congrArg (List.filter (!p ·)) same
  rw [filter_trimmed, filter_trimmed, List.filter_append] at kept
  have none := List.append_right_eq_self.mp kept
  intro c mem
  simpa using List.filter_eq_nil_iff.mp none c mem

/-- `trim` begins at the start. -/
theorem trimChars_between (ahead : ∀ c ∈ as, isWhitespace c = true) (behind : ∀ c ∈ bs, isWhitespace c = true)
    (free : ∀ c ∈ cs, isWhitespace c = false) : trimChars (as ++ (cs ++ bs)) = cs := by
  have trims : trimChars (as ++ (cs ++ bs)) = trimEnd isWhitespace ((as ++ (cs ++ bs)).dropWhile isWhitespace) := rfl
  rw [trims, dropWhile_all ahead]
  cases cs with
  | nil =>
    have none : (bs ++ []).dropWhile isWhitespace = [] := dropWhile_all behind
    rw [List.append_nil] at none
    rw [List.nil_append, none]
    rfl
  | cons c cs =>
    rw [List.cons_append, List.dropWhile_cons, if_neg (by simp [free c (.head _)]), ← List.cons_append,
      trimEnd_append behind, trimEnd_free free]

/-- A text is what `trim` leaves between white space. -/
theorem trimChars_spec (cs : List Char) : ∃ as bs, cs = as ++ (trimChars cs ++ bs) ∧ (∀ c ∈ as, isWhitespace c = true) ∧
    ∀ c ∈ bs, isWhitespace c = true := by
  obtain ⟨as, whole, ahead⟩ := dropWhile_spec isWhitespace cs
  obtain ⟨bs, kept, behind⟩ := trimEnd_spec isWhitespace (cs.dropWhile isWhitespace)
  refine ⟨as, bs, ?_, ahead, behind⟩
  conv => lhs; rw [whole, kept]
  rfl

end

/-! ## One line -/

theorem isWhitespace_of_isPad {c : Char} (pad : isPad c = true) : isWhitespace c = true := by
  rcases Bool.or_eq_true _ _ ▸ pad with blank | tab
  · rw [of_decide_eq_true blank]; decide
  · rw [of_decide_eq_true tab]; decide

/-- No white space has a form in lower case. -/
theorem isWhitespace_toLower {c : Char} (white : isWhitespace c = true) : c.toLower = c := by
  delta Char.toLower
  rw [dif_neg]
  intro upper
  have low : 65 ≤ c.toNat := UInt32.le_iff_toNat_le.mp upper.1
  have high : c.toNat ≤ 90 := UInt32.le_iff_toNat_le.mp upper.2
  simp only [isWhitespace, Bool.or_eq_true, Bool.and_eq_true, decide_eq_true_eq] at white
  omega

variable {k l v e : String}

/-- A name in lower case that has no white space. -/
theorem free_of_lowered {name : String} (named : lowered k = name) (free : ∀ c ∈ name.toList, isWhitespace c = false) :
    ∀ c ∈ k.toList, isWhitespace c = false := by
  intro c mem
  cases white : isWhitespace c with
  | false => rfl
  | true =>
    have inside : c.toLower ∈ name.toList := by
      rw [← named, lowered, String.toList_ofList]
      exact List.mem_map_of_mem mem
    have other := free _ inside
    rw [isWhitespace_toLower white, white] at other
    exact other

theorem host_free : ∀ c ∈ "host".toList, isWhitespace c = false := Wire.forall_mem_of_all (by decide)

/-- The parts of a `Host` field. -/
theorem hostValue_iff : hostValue l = some v ↔ ∃ k, l = k ++ (String.singleton ':' ++ v) ∧ Wire.Free ':' k ∧
    lowered (String.ofList (trimEnd isPad k.toList)) = "host" := by
  constructor
  · intro value
    rw [hostValue] at value
    split at value
    · cases value
    next k' v' splits =>
      split at value
      next named =>
        cases value
        obtain ⟨whole, free⟩ := Wire.splitOnce_iff.mp splits
        exact ⟨k', whole, free, named⟩
      · cases value
  · rintro ⟨k, whole, free, named⟩
    rw [hostValue, Wire.splitOnce_iff.mpr ⟨whole, free⟩]
    exact if_pos named

theorem hostValue_append (value : hostValue l = some v) : hostValue (l ++ e) = some (v ++ e) := by
  obtain ⟨k, rfl, free, named⟩ := hostValue_iff.mp value
  exact hostValue_iff.mpr ⟨k, by simp only [String.append_assoc], free, named⟩

/-- The characters ahead of the colon. -/
theorem name_chars (named : lowered (String.ofList (trimEnd isPad k.toList)) = "host") :
    (∃ c cs, k.toList = c :: cs ∧ isWhitespace c = false) ∧ ∀ c ∈ k.toList, isWhitespace c = true → isPad c = true := by
  have free := free_of_lowered named host_free
  rw [String.toList_ofList] at free
  obtain ⟨bs, whole, behind⟩ := trimEnd_spec isPad k.toList
  constructor
  · cases kept : trimEnd isPad k.toList with
    | nil => rw [kept] at named; exact absurd named (by decide)
    | cons c cs => exact ⟨c, cs ++ bs, by rw [whole, kept]; rfl, free c (kept ▸ .head _)⟩
  · intro c mem white
    rw [whole] at mem
    rcases List.mem_append.mp mem with mem | mem
    · rw [free c mem] at white; cases white
    · exact behind c mem

theorem continues_of_hostValue (value : hostValue l = some v) : continues l = false := by
  obtain ⟨k, rfl, -, named⟩ := hostValue_iff.mp value
  obtain ⟨⟨c, cs, begins, free⟩, -⟩ := name_chars named
  rw [continues, String.toList_append, begins]
  cases pad : isPad c with
  | false => exact pad
  | true => rw [isWhitespace_of_isPad pad] at free; cases free

/-- A `Host` field that is padded with spaces and tabs only is on one line. -/
theorem fields_hostLine (value : hostValue l = some v) (padded : ∀ c ∈ v.toList, isWhitespace c = true → isPad c = true) :
    Wire.fields '\n' l = [l] := by
  have free : Wire.Free '\n' l := by
    obtain ⟨k, rfl, -, named⟩ := hostValue_iff.mp value
    intro mem
    rw [String.toList_append, String.toList_append, String.toList_singleton] at mem
    rcases List.mem_append.mp mem with mem | mem
    · exact absurd ((name_chars named).2 _ mem (by decide)) (by decide)
    · rcases List.mem_cons.mp mem with colon | mem
      · cases colon
      · exact absurd (padded _ mem (by decide)) (by decide)
  have single : Wire.joined '\n' [l] = l := String.intercalate_singleton
  have read : Wire.fields '\n' (Wire.joined '\n' [l]) = [l] :=
    Wire.fields_joined (fun f mem => List.mem_singleton.mp mem ▸ free) (by simp)
  rwa [single] at read

/-- What the router makes of one more line. -/
theorem hostLine_spec {found found' : Option String} (read : hostLine found l = .ok found') :
    hostValue l = none ∧ found' = found ∨ ∃ v, hostValue l = some v ∧ found = none ∧ found' = some (trim v) := by
  rw [hostLine] at read
  rw [hostValue]
  cases splits : Wire.splitOnce ':' l with
  | none =>
    rw [splits] at read
    cases read
    exact .inl ⟨rfl, rfl⟩
  | some parts =>
    obtain ⟨k, v⟩ := parts
    rw [splits] at read
    dsimp only at read ⊢
    split at read
    next named =>
      have free := free_of_lowered named host_free
      have whole : trimEnd isPad k.toList = k.toList := trimEnd_free fun c mem => by
        cases pad : isPad c with
        | false => rfl
        | true => rw [← free c mem, isWhitespace_of_isPad pad]
      rw [whole, String.ofList_toList, if_pos named]
      split at read
      · cases read
      next empty =>
        cases read
        exact .inr ⟨v, rfl, by simpa using empty, rfl⟩
    next other =>
      split at read
      · cases read
      next foreign =>
        cases read
        refine .inl ⟨if_neg fun named => foreign ?_, rfl⟩
        have free := free_of_lowered named host_free
        rw [String.toList_ofList] at free
        obtain ⟨bs, whole, behind⟩ := trimEnd_spec isPad k.toList
        have trims : trimChars k.toList = trimEnd isPad k.toList := by
          have same : trimChars ([] ++ (trimEnd isPad k.toList ++ bs)) = trimEnd isPad k.toList :=
            trimChars_between (by simp) (fun c mem => isWhitespace_of_isPad (behind c mem)) free
          rwa [List.nil_append, ← whole] at same
        rw [trim, trims, named]

/-- A head in which the router finds a host has one `Host` field. -/
theorem hostValues_of_hostLine {ls : List String} {found : Option String} {host : String}
    (read : ls.foldlM hostLine found = .ok (some host)) :
    found = some host ∧ hostValues ls = [] ∨ found = none ∧ ∃ v, hostValues ls = [v] ∧ trim v = host := by
  induction ls generalizing found with
  | nil =>
    cases read
    exact .inl ⟨rfl, rfl⟩
  | cons l ls ih =>
    rw [List.foldlM_cons] at read
    obtain ⟨found', first, others⟩ := bind_ok read
    rw [hostValues, List.filterMap_cons]
    rcases hostLine_spec first with ⟨other, rfl⟩ | ⟨v, value, rfl, rfl⟩
    · rw [other]
      exact ih others
    · rw [value]
      rcases ih others with ⟨same, none⟩ | ⟨same, -⟩
      · exact .inr ⟨rfl, v, congrArg (v :: ·) none, Option.some.inj same⟩
      · cases same

/-! ## Lines -/

section

variable {c l v : String} {as bs ls : List String}

/-- The line that comes first, and what continues it. -/
theorem unfolded_head (c : String) (ls : List String) : ∃ e rest, unfolded c ls = (c ++ e) :: rest := by
  induction ls generalizing c with
  | nil => exact ⟨"", [], by rw [unfolded, String.append_empty]⟩
  | cons l ls ih =>
    rw [unfolded]
    split
    · obtain ⟨e, rest, whole⟩ := ih (c ++ l)
      exact ⟨l ++ e, rest, by rw [whole, String.append_assoc]⟩
    · exact ⟨"", unfolded l ls, by rw [String.append_empty]⟩

/-- A line that continues no other begins anew. -/
theorem unfolded_append (starts : continues l = false) : unfolded c (as ++ l :: bs) = unfolded c as ++ unfolded l bs := by
  induction as generalizing c with
  | nil =>
    have anew : unfolded c (l :: bs) = c :: unfolded l bs := by rw [unfolded, if_neg (by simp [starts])]
    exact anew
  | cons a as ih =>
    rw [List.cons_append, unfolded, unfolded]
    split
    · exact ih
    · rw [ih, List.cons_append]

theorem fieldsOf_append (starts : continues l = false) :
    fieldsOf (c :: (as ++ l :: bs)) = fieldsOf (c :: as) ++ unfolded l bs := by
  obtain ⟨e, rest, whole⟩ := unfolded_head c as
  rw [fieldsOf, unfolded_append starts, fieldsOf, whole]
  rfl

/-- A `Host` line among the lines, and what continues it. -/
theorem hostValues_at (c : String) (as bs : List String) (value : hostValue l = some v) : ∃ e rest,
    hostValues (fieldsOf (c :: (as ++ l :: bs))) = hostValues (fieldsOf (c :: as)) ++ (v ++ e) :: rest := by
  obtain ⟨e, rest, whole⟩ := unfolded_head l bs
  refine ⟨e, hostValues rest, ?_⟩
  rw [fieldsOf_append (continues_of_hostValue value), whole, hostValues, List.filterMap_append, List.filterMap_cons,
    hostValue_append value]
  rfl

theorem hostValues_ne_nil (inside : l ∈ ls) (value : hostValue l = some v) : hostValues (fieldsOf (c :: ls)) ≠ [] := by
  obtain ⟨as, bs, rfl⟩ := List.append_of_mem inside
  obtain ⟨e, rest, whole⟩ := hostValues_at c as bs value
  rw [whole]
  simp

/-- The fields up to the first empty line come first, and the field of a line behind it is none of them. -/
theorem fieldsOf_untilEmpty (c : String) (ls : List String) : ∃ more, fieldsOf (c :: ls) = fieldsOf (untilEmpty (c :: ls)) ++ more ∧
    ∀ l ∈ ls, l ∉ ls.takeWhile (· ≠ "") → (hostValue l).isSome → hostValues more ≠ [] := by
  have whole : ls.takeWhile (· ≠ "") ++ ls.dropWhile (· ≠ "") = ls := List.takeWhile_append_dropWhile
  cases left : ls.dropWhile (· ≠ "") with
  | nil =>
    rw [left, List.append_nil] at whole
    exact ⟨[], by rw [untilEmpty, whole, List.append_nil], fun l inside outside => absurd inside (whole.symm ▸ outside)⟩
  | cons d ds =>
    have empty : d = "" := by
      have stops := List.head?_dropWhile_not (· ≠ "") ls
      rw [left] at stops
      simpa using stops
    subst empty
    refine ⟨unfolded "" ds, ?_, fun l inside outside value => ?_⟩
    · conv => lhs; rw [← whole, left]
      exact fieldsOf_append rfl
    · obtain ⟨v, value⟩ := Option.isSome_iff_exists.mp value
      rw [← whole, left] at inside
      rcases List.mem_append.mp inside with inside | inside
      · exact absurd inside outside
      · rcases List.mem_cons.mp inside with rfl | inside
        · cases value
        · obtain ⟨e, rest, first⟩ := unfolded_head "" ds
          intro none
          refine hostValues_ne_nil (c := "") inside value ?_
          rw [fieldsOf, first, List.tail_cons]
          rw [first, hostValues, List.filterMap_cons] at none
          split at none
          · exact none
          · cases none

end

/-! ## Heads -/

theorem lenientLines_eq (text : String) : ∃ c ls, lenientLines text = c :: ls ∧
    ∀ l ∈ headLines text, Wire.fields '\n' l = [l] → l ∈ ls := by
  have some : Wire.fields '\n' (requestLine text) ≠ [] := by
    rw [Wire.fields]
    exact fun none => List.splitOn_ne_nil _ _ (List.map_eq_nil_iff.mp none)
  cases first : Wire.fields '\n' (requestLine text) with
  | nil => exact absurd first some
  | cons c cs =>
    refine ⟨c, cs ++ (headLines text).flatMap (Wire.fields '\n'), ?_, fun l inside single => ?_⟩
    · rw [lenientLines, List.flatMap_cons, first]
      rfl
    · exact List.mem_append_right _ (List.mem_flatMap.mpr ⟨l, inside, single ▸ .head _⟩)

/-- The value of the only `Host` field, without the spaces and tabs around it, is the host of the router exactly when
no other white space is around it. -/
theorem unpadded_eq_trim {v : String} (free : ∀ c ∈ (trim v).toList, isWhitespace c = false) :
    unpadded v = trim v ↔ ∀ c ∈ v.toList, isWhitespace c = true → isPad c = true := by
  have trims : (trim v).toList = trimChars v.toList := by rw [trim, String.toList_ofList]
  rw [trims] at free
  obtain ⟨as, bs, whole, ahead, behind⟩ := trimChars_spec v.toList
  constructor
  · intro same c mem white
    have plain : (trimEnd isPad v.toList).dropWhile isPad = trimChars v.toList := by
      rw [← trims, ← same, unpadded, String.toList_ofList]
    obtain ⟨bs, whole, behind⟩ := trimEnd_spec isPad v.toList
    obtain ⟨as, kept, ahead⟩ := dropWhile_spec isPad (trimEnd isPad v.toList)
    rw [whole, kept, plain] at mem
    rcases List.mem_append.mp mem with mem | mem
    · rcases List.mem_append.mp mem with mem | mem
      · exact ahead c mem
      · rw [free c mem] at white
        cases white
    · exact behind c mem
  · intro padded
    have inside {c : Char} (mem : c ∈ as ∨ c ∈ bs) : c ∈ v.toList := by
      rw [whole]
      rcases mem with mem | mem
      · exact List.mem_append_left _ mem
      · exact List.mem_append_right _ (List.mem_append_right _ mem)
    have unpads : (trimEnd isPad (as ++ (trimChars v.toList ++ bs))).dropWhile isPad = trimChars v.toList :=
      trimmed_between (fun c mem => padded c (inside (.inl mem)) (ahead c mem))
        (fun c mem => padded c (inside (.inr mem)) (behind c mem)) fun c mem => by
          cases pad : isPad c with
          | false => rfl
          | true => rw [← free c mem, isWhitespace_of_isPad pad]
    rw [← whole] at unpads
    rw [unpadded, unpads, trim]

/-- A head by which the router chooses an application is read alike exactly when its `Host` field is plain. -/
theorem readsAlike_iff {head : Bytes} {text host : String} (decoded : Wire.fromUtf8 head = some text)
    (chosen : hostOf head = .ok host) (free : ∀ c ∈ host.toList, isWhitespace c = false) :
    ReadsAlike head ↔ PlainHost text := by
  obtain ⟨v, single, rfl⟩ : ∃ v, hostValues (headLines text) = [v] ∧ trim v = host := by
    have read := chosen
    rw [hostOf, decoded] at read
    obtain ⟨found, lines, read⟩ := bind_ok read
    cases found with
    | none => cases read
    | some h =>
      cases read
      rcases hostValues_of_hostLine lines with ⟨absurd, -⟩ | ⟨-, found⟩
      · cases absurd
      · exact found
  obtain ⟨l, inside, value⟩ := List.mem_filterMap.mp (single ▸ .head _ : v ∈ hostValues (headLines text))
  obtain ⟨c, ls, lines, spread⟩ := lenientLines_eq text
  obtain ⟨more, whole, behind⟩ := fieldsOf_untilEmpty c ls
  have split : hostValues (fieldsOf (c :: ls)) = hostValues (fieldsOf (untilEmpty (c :: ls))) ++ hostValues more := by
    rw [whole, hostValues, List.filterMap_append]
    rfl
  constructor
  · rintro ⟨text', host', decoded', chosen', strict, lenient, early⟩
    cases decoded.symm.trans decoded'
    cases chosen.symm.trans chosen'
    rw [strictHosts, hosts, single, List.map_singleton, List.singleton_inj] at strict
    have padded := (unpadded_eq_trim free).mp strict
    have line := spread l inside (fields_hostLine value padded)
    obtain ⟨as, bs, parts⟩ := List.append_of_mem line
    obtain ⟨e, rest, found⟩ := hostValues_at c as bs value
    rw [← parts] at found
    rw [hosts, lines] at lenient early
    refine ⟨fun w mem => ?_, ?_, ?_⟩
    · rw [single] at mem
      cases List.mem_singleton.mp mem
      exact padded
    · -- Other fields would be other hosts.
      rw [found, List.map_append, List.map_cons] at lenient
      obtain ⟨none, same⟩ := List.append_eq_singleton_iff.mp lenient |>.resolve_right fun other => by cases other.2
      obtain ⟨same, others⟩ := List.cons.inj same
      rw [lines, found, List.map_eq_nil_iff.mp none, List.map_eq_nil_iff.mp others, single]
      refine congrArg (· :: []) ?_
      rw [← strict, unpadded, unpadded, String.toList_append] at same
      change trimEnd isPad (v ++ e).toList = _
      rw [String.toList_append]
      exact trimEnd_append (all_of_trimmed (String.ofList_injective same))
    · rw [lines]
      refine Decidable.byContradiction fun late => ?_
      have outside : l ∉ ls.takeWhile (· ≠ "") := fun mem => late ⟨l, mem, by rw [value]; rfl⟩
      have others := behind l line outside (by rw [value]; rfl)
      have count := congrArg List.length split
      have one := congrArg List.length lenient
      have first := congrArg List.length early
      have another := List.length_pos_iff.mpr others
      simp only [List.length_map, List.length_append, List.length_singleton] at count one first
      omega
  · rintro ⟨padded, alone, l', reached, value'⟩
    rw [single] at padded alone
    have strict := (unpadded_eq_trim free).mpr (padded v (.head _))
    rw [lines] at reached alone
    obtain ⟨w, only, same⟩ : ∃ w, hostValues (fieldsOf (c :: ls)) = [w] ∧ unpadded w = unpadded v := by
      obtain ⟨w, only, same⟩ := List.map_eq_singleton_iff.mp alone
      exact ⟨w, only, by rw [unpadded, same, unpadded]⟩
    have early : hostValues (fieldsOf (untilEmpty (c :: ls))) = [w] := by
      obtain ⟨v', value'⟩ := Option.isSome_iff_exists.mp value'
      have some := hostValues_ne_nil (c := c) reached value'
      rw [only] at split
      rcases List.append_eq_singleton_iff.mp split.symm with ⟨none, -⟩ | ⟨all, -⟩
      · exact absurd none some
      · exact all
    refine ⟨text, trim v, decoded, chosen, ?_, ?_, ?_⟩
    · rw [strictHosts, hosts, single, List.map_singleton, strict]
    · rw [lines, hosts, only, List.map_singleton, same, strict]
    · rw [lines, hosts, early, List.map_singleton, same, strict]

/-! ## Names of applications -/

theorem hostname_free {app : Deploy.ApplicationId} : ∀ c ∈ (Deploy.hostname app).toList, isWhitespace c = false := by
  have letters : ∀ c ∈ (Deploy.IdKind.application.prefixStr ++ "_").toList ++ Deploy.Id.alphabet,
      isWhitespace c.toLower = false := Wire.forall_mem_of_all (by decide)
  have domain : ∀ c ∈ ".harpoon.localhost".toList, isWhitespace c = false := Wire.forall_mem_of_all (by decide)
  intro c mem
  have parts : (Deploy.hostname app).toList = (Deploy.label app).toList ++ ".harpoon.localhost".toList := by
    rw [Deploy.hostname, String.toList_append]
    rfl
  rw [parts] at mem
  rcases List.mem_append.mp mem with mem | mem
  · rw [Deploy.label, String.toList_ofList] at mem
    obtain ⟨d, inside, rfl⟩ := List.mem_map.mp mem
    refine letters d ?_
    have inside := List.mem_of_mem_drop inside
    refine List.mem_append.mpr (Deploy.Id.mem_asStr (i := app) ?_)
    split at inside
    · exact (List.dropWhile_sublist _).subset (List.mem_of_mem_tail inside)
    · exact inside
  · exact domain c mem

theorem withoutPort_chars {host : String} (free : ∀ c ∈ (Deploy.withoutPort host).toList, isWhitespace c = false) :
    ∀ c ∈ host.toList, isWhitespace c = false := by
  rw [Deploy.withoutPort] at free
  split at free
  next h digits splits =>
    split at free
    next numeric =>
      intro c mem
      rw [Wire.eq_of_rsplitOnce splits, String.toList_append, String.toList_append, String.toList_singleton] at mem
      rcases List.mem_append.mp mem with mem | mem
      · exact free c mem
      · rcases List.mem_cons.mp mem with rfl | mem
        · decide
        · have digit := List.all_eq_true.mp numeric c mem
          rw [Char.isDigit, Bool.and_eq_true, decide_eq_true_eq, decide_eq_true_eq] at digit
          have low : 48 ≤ c.toNat := UInt32.le_iff_toNat_le.mp digit.1
          have high : c.toNat ≤ 57 := UInt32.le_iff_toNat_le.mp digit.2
          cases white : isWhitespace c with
          | false => rfl
          | true =>
            simp only [isWhitespace, Bool.or_eq_true, Bool.and_eq_true, decide_eq_true_eq] at white
            omega
    · exact free
  · exact free

theorem get_hostname {t : RouteTable} {name : String} {r : Route} (known : t.get name = some r) :
    ∃ app, Deploy.hostname app = name := by
  rw [RouteTable.get] at known
  cases claims : t.claims.filter fun c => Deploy.hostname c.1 = name with
  | nil =>
    rw [claims] at known
    cases known
  | cons c cs =>
    have inside : c ∈ t.claims.filter fun c => Deploy.hostname c.1 = name := claims ▸ .head _
    exact ⟨c.1, of_decide_eq_true (List.mem_filter.mp inside).2⟩

/-- A name that a table knows has no white space. -/
theorem resolve_free {t : RouteTable} {host : String} {r : Route} (known : t.resolve host = some r) :
    ∀ c ∈ host.toList, isWhitespace c = false := by
  obtain ⟨app, named⟩ := get_hostname known
  refine withoutPort_chars fun c mem => ?_
  obtain ⟨dots, whole, behind⟩ := trimEnd_spec (· = '.') (Deploy.withoutPort host).toList
  rw [whole] at mem
  rcases List.mem_append.mp mem with mem | mem
  · refine free_of_lowered named.symm hostname_free c ?_
    rw [Deploy.trimEndDots, String.toList_ofList]
    exact mem
  · rw [of_decide_eq_true (behind c mem)]
    decide

/-! ## What is forwarded -/

section

variable {own port : UInt16} {table again : RouteTable} {connects reconnects : UInt16 → Bool} {reads : List (Option Bytes)}
  {head : Bytes}

theorem attempt_forward {read : Bytes} {refused : UInt16 → Answer} {r : Option Route}
    (forwards : attempt own connects read refused r = .forward port head) :
    (∃ app, r = some (.serving app port)) ∧ head = read ∨ ∃ tried, refused tried = .forward port head := by
  rcases r with _ | (⟨app, p⟩ | app | apps)
  · cases forwards
  · rw [attempt] at forwards
    split at forwards
    · cases forwards
    · split at forwards
      · cases forwards
        exact .inl ⟨⟨app, rfl⟩, rfl⟩
      · exact .inr ⟨p, forwards⟩
  · cases forwards
  · cases forwards

/-- A head that is forwarded names an application. -/
theorem serve_forward (forwards : serve own table again connects reconnects reads = .forward port head) :
    ∃ host app, hostOf head = .ok host ∧
      (table.resolve host = some (.serving app port) ∨ again.resolve host = some (.serving app port)) := by
  rw [serve] at forwards
  split at forwards
  · cases forwards
  next read _ =>
    split at forwards
    · cases forwards
    next host chosen =>
      rcases attempt_forward forwards with ⟨⟨app, known⟩, rfl⟩ | ⟨tried, forwards⟩
      · exact ⟨host, app, chosen, .inl known⟩
      · split at forwards
        · cases forwards
        · rcases attempt_forward forwards with ⟨⟨app, known⟩, rfl⟩ | ⟨-, absurd⟩
          · exact ⟨host, app, chosen, .inr known⟩
          · cases absurd

/-- A request for an application that is served and takes the connection. -/
theorem serve_known {text host : String} {app : Deploy.ApplicationId} (whole : readHead [] reads = some (Wire.utf8 text))
    (chosen : (headLines text).foldlM hostLine none = .ok (some host))
    (known : table.resolve host = some (.serving app port)) (other : port ≠ own) (open_ : connects port = true) :
    serve own table again connects reconnects reads = .forward port (Wire.utf8 text) := by
  have hosts : hostOf (Wire.utf8 text) = .ok host := by
    rw [hostOf, Wire.fromUtf8_utf8]
    dsimp only
    rw [chosen]
    rfl
  rw [serve, whole]
  dsimp only
  rw [hosts]
  dsimp only
  rw [known, attempt, if_neg other, if_pos open_]

/-- A head that is forwarded is read alike by all exactly when its `Host` field is plain. -/
theorem forwarded_readsAlike (forwards : serve own table again connects reconnects reads = .forward port head) :
    ReadsAlike head ↔ ∃ text, Wire.fromUtf8 head = some text ∧ PlainHost text := by
  obtain ⟨host, app, chosen, known⟩ := serve_forward forwards
  have free : ∀ c ∈ host.toList, isWhitespace c = false := by
    rcases known with known | known
    · exact resolve_free known
    · exact resolve_free known
  cases decoded : Wire.fromUtf8 head with
  | none =>
    rw [hostOf, decoded] at chosen
    cases chosen
  | some text =>
    rw [readsAlike_iff decoded chosen free]
    exact ⟨fun plain => ⟨text, rfl, plain⟩, fun ⟨_, same, plain⟩ => Option.some.inj same ▸ plain⟩

end

section

open Deploy (ApplicationId)

/-- One application, which is served on one port. -/
def oneApp : RouteTable := .build [((⟨0⟩ : ApplicationId), some 38001)]

def plainRequest : String := "GET / HTTP/1.1\r\nHost: \t0000000000.HARPOON.localhost:7480 \r\nAccept: */*\r\n\r\n"

/-- What a server that takes a bare LF for the end of a line reads as a request for another host. -/
def smuggledRequest : String := "GET / HTTP/1.1\r\nHost: 0000000000.harpoon.localhost\r\nX: b\nHost: other\r\n\r\n"

theorem forwarded_of_decided (text host : String) (ends : readHead [] [some (Wire.utf8 text)] = some (Wire.utf8 text))
    (chosen : ((headLines text).foldlM hostLine none).toOption = some (some host))
    (known : oneApp.resolve host = some (.serving ⟨0⟩ 38001)) :
    serve 7480 oneApp oneApp (fun _ => true) (fun _ => true) [some (Wire.utf8 text)] = .forward 38001 (Wire.utf8 text) :=
  serve_known ends (Journal.ok_of_toOption chosen) known (by decide) rfl

theorem plainRequest_plain : PlainHost plainRequest where
  padded v mem c inside white := by
    have all : ((hostValues (headLines plainRequest)).all fun v => v.toList.all fun c => !isWhitespace c || isPad c) = true := by
      decide
    have pad := List.all_eq_true.mp (List.all_eq_true.mp all v mem) c inside
    rwa [white, Bool.not_true, Bool.false_or] at pad
  alone := by decide
  reached := by
    have some : ((untilEmpty (lenientLines plainRequest)).tail.any fun l => (hostValue l).isSome) = true := by decide
    exact List.any_eq_true.mp some

/-- An application is reached by its name in capitals, with a port and between spaces and tabs. -/
theorem plainRequest_readsAlike :
    serve 7480 oneApp oneApp (fun _ => true) (fun _ => true) [some (Wire.utf8 plainRequest)] =
      .forward 38001 (Wire.utf8 plainRequest) ∧ ReadsAlike (Wire.utf8 plainRequest) := by
  have forwards := forwarded_of_decided plainRequest "0000000000.HARPOON.localhost:7480" (by decide)
    (by decide) (by decide)
  exact ⟨forwards, (forwarded_readsAlike forwards).mpr ⟨plainRequest, Wire.fromUtf8_utf8 _, plainRequest_plain⟩⟩

/-- The router forwards a request that names another host on a line that a bare LF ends. -/
theorem smuggledRequest_forwarded :
    serve 7480 oneApp oneApp (fun _ => true) (fun _ => true) [some (Wire.utf8 smuggledRequest)] =
      .forward 38001 (Wire.utf8 smuggledRequest) ∧ ¬ ReadsAlike (Wire.utf8 smuggledRequest) := by
  refine ⟨forwarded_of_decided smuggledRequest "0000000000.harpoon.localhost" (by decide) (by decide)
    (by decide), ?_⟩
  rintro ⟨text, host, decoded, -, -, lenient, -⟩
  cases (Wire.fromUtf8_utf8 _).symm.trans decoded
  have two : (hosts (fieldsOf (lenientLines smuggledRequest))).length = 2 := by decide
  rw [lenient] at two
  cases two

end

end Harpoon.Desktop
