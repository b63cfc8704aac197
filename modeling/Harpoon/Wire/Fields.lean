/-!
# Texts made of fields

A line of fields is the fields with a separator between them. A text is read back as the fields it was
joined from when none of them contains the separator.
-/

namespace Harpoon.Wire

/-- What stands between the separators; at least one field. -/
def fields (sep : Char) (s : String) : List String := (s.toList.splitOn sep).map String.ofList

/-- The fields with the separator between them. -/
def joined (sep : Char) (fs : List String) : String := (String.singleton sep).intercalate fs

/-- What stands before and after the first separator. -/
def splitOnce (sep : Char) (s : String) : Option (String × String) :=
  match s.toList.dropWhile (· ≠ sep) with
  | [] => none
  | _ :: rest => some (String.ofList (s.toList.takeWhile (· ≠ sep)), String.ofList rest)

/-- What stands before and after the last separator. -/
def rsplitOnce (sep : Char) (s : String) : Option (String × String) :=
  match s.toList.reverse.dropWhile (· ≠ sep) with
  | [] => none
  | _ :: rest =>
    some (String.ofList rest.reverse, String.ofList (s.toList.reverse.takeWhile (· ≠ sep)).reverse)

/-- What follows a prefix. -/
def stripPrefix (p s : String) : Option String := (p.toList.isPrefixOf? s.toList).map String.ofList

/-- The text does not contain the character. -/
def Free (sep : Char) (s : String) : Prop := sep ∉ s.toList

instance (sep : Char) (s : String) : Decidable (Free sep s) := inferInstanceAs (Decidable (sep ∉ s.toList))

variable {sep c : Char} {p s t : String} {fs : List String} {cs : List Char}

/-- What a test of a list of characters says of each. Deciding the statement itself may run through all
characters there are. -/
theorem forall_mem_of_all {ok : Char → Prop} [DecidablePred ok] (all : cs.all fun c => ok c) : ∀ c ∈ cs, ok c :=
  fun c mem => of_decide_eq_true (List.all_eq_true.mp all c mem)

theorem fields_joined (free : ∀ f ∈ fs, Free sep f) (some : fs ≠ []) : fields sep (joined sep fs) = fs := by
  have texts : ∀ l ∈ fs.map String.toList, sep ∉ l := by
    intro l mem
    obtain ⟨f, inside, rfl⟩ := List.mem_map.mp mem
    exact free f inside
  rw [fields, joined, String.toList_intercalate, String.toList_singleton,
    List.splitOn_intercalate sep texts (by simpa using some), List.map_map]
  simp

/-- A character of joined fields is the separator or stands in one of them. -/
theorem mem_joined (mem : c ∈ (joined sep fs).toList) : c = sep ∨ ∃ f ∈ fs, c ∈ f.toList := by
  induction fs with
  | nil => simp [joined] at mem
  | cons f fs ih =>
    cases fs with
    | nil =>
      rw [joined, String.intercalate_singleton] at mem
      exact .inr ⟨f, List.mem_singleton.mpr rfl, mem⟩
    | cons g gs =>
      rw [joined, String.intercalate_cons_cons, String.toList_append, String.toList_append,
        String.toList_singleton, List.append_assoc] at mem
      rcases List.mem_append.mp mem with mem | mem
      · exact .inr ⟨f, List.mem_cons_self, mem⟩
      · rcases List.mem_cons.mp mem with same | mem
        · exact .inl same
        · rcases ih mem with same | ⟨k, inside, mem⟩
          · exact .inl same
          · exact .inr ⟨k, List.mem_cons_of_mem f inside, mem⟩

/-- A character of a field stands in the joined fields. -/
theorem joined_mem {f : String} (inside : f ∈ fs) (mem : c ∈ f.toList) : c ∈ (joined sep fs).toList := by
  induction fs with
  | nil => cases inside
  | cons g gs ih =>
    cases gs with
    | nil =>
      cases List.mem_singleton.mp inside
      rwa [joined, String.intercalate_singleton]
    | cons k ks =>
      rw [joined, String.intercalate_cons_cons, String.toList_append, String.toList_append, List.append_assoc]
      rcases List.mem_cons.mp inside with rfl | inside
      · exact List.mem_append_left _ mem
      · exact List.mem_append_right _ (List.mem_append_right _ (ih inside))

theorem splitOnce_append (free : Free sep s) :
    splitOnce sep (s ++ (String.singleton sep ++ t)) = some (s, t) := by
  have keeps : ∀ c ∈ s.toList, (decide (c ≠ sep)) = true := by
    intro c mem
    exact decide_eq_true fun same => free (same ▸ mem)
  have stops : (s ++ (String.singleton sep ++ t)).toList = s.toList ++ sep :: t.toList := by simp
  rw [splitOnce, stops, List.dropWhile_append_of_pos keeps, List.takeWhile_append_of_pos keeps]
  simp

theorem splitOnce_none (free : Free sep s) : splitOnce sep s = none := by
  have none : s.toList.dropWhile (· ≠ sep) = [] := by
    have keeps : ∀ c ∈ s.toList, (decide (c ≠ sep)) = true := by
      intro c mem
      exact decide_eq_true fun same => free (same ▸ mem)
    rw [← List.append_nil s.toList, List.dropWhile_append_of_pos keeps, List.dropWhile_nil]
  rw [splitOnce, none]

theorem rsplitOnce_append (free : Free sep t) :
    rsplitOnce sep (s ++ (String.singleton sep ++ t)) = some (s, t) := by
  have keeps : ∀ c ∈ t.toList.reverse, (decide (c ≠ sep)) = true := by
    intro c mem
    exact decide_eq_true fun same => free (same ▸ List.mem_reverse.mp mem)
  have stops : (s ++ (String.singleton sep ++ t)).toList.reverse = t.toList.reverse ++ sep :: s.toList.reverse := by
    simp
  rw [rsplitOnce, stops, List.dropWhile_append_of_pos keeps, List.takeWhile_append_of_pos keeps]
  simp

/-- What the last separator stands between. -/
theorem eq_of_rsplitOnce (splits : rsplitOnce sep s = some (p, t)) :
    s = p ++ (String.singleton sep ++ t) := by
  have whole : s.toList.reverse.takeWhile (· ≠ sep) ++ s.toList.reverse.dropWhile (· ≠ sep) = s.toList.reverse :=
    List.takeWhile_append_dropWhile
  rw [rsplitOnce] at splits
  split at splits
  · cases splits
  next c rest left =>
    cases splits
    have stops := List.head?_dropWhile_not (· ≠ sep) s.toList.reverse
    rw [left] at stops whole
    have same : c = sep := by simpa using stops
    have forwards := congrArg List.reverse whole
    rw [List.reverse_reverse, List.reverse_append, List.reverse_cons, List.append_assoc, same] at forwards
    refine String.toList_injective ?_
    rw [String.toList_append, String.toList_append, String.toList_ofList, String.toList_ofList, String.toList_singleton,
      forwards]

theorem stripPrefix_append : stripPrefix p (p ++ s) = some s := by
  have strips : ∀ cs : List Char, cs.isPrefixOf? (cs ++ s.toList) = some s.toList := by
    intro cs
    induction cs with
    | nil => rfl
    | cons c cs ih =>
      rw [List.cons_append]
      exact (if_pos BEq.rfl).trans ih
  rw [stripPrefix, String.toList_append, strips]
  simp

theorem eq_of_stripPrefix (rest : stripPrefix p s = some t) : s = p ++ t := by
  have strips : ∀ cs ds es : List Char, cs.isPrefixOf? ds = some es → ds = cs ++ es := by
    intro cs
    induction cs with
    | nil =>
      intro ds es same
      cases same
      rfl
    | cons c cs ih =>
      intro ds es found
      cases ds with
      | nil => cases found
      | cons d ds =>
        have found : (if c == d then cs.isPrefixOf? ds else none) = some es := found
        split at found
        next same => rw [eq_of_beq same, List.cons_append, ← ih ds es found]
        next => cases found
  rw [stripPrefix] at rest
  obtain ⟨es, some, rfl⟩ := Option.map_eq_some_iff.mp rest
  have chars := strips _ _ _ some
  rw [← String.toList_inj, String.toList_append, String.toList_ofList]
  exact chars

theorem stripPrefix_none {d : Char} {ds : List Char} (begins : p.toList = c :: cs) (other : s.toList = d :: ds)
    (differs : c ≠ d) : stripPrefix p s = none := by
  have no : (c == d) = false := beq_eq_false_iff_ne.mpr differs
  have stops : List.isPrefixOf? (c :: cs) (d :: ds) = none := if_neg (by rw [no]; exact Bool.false_ne_true)
  rw [stripPrefix, begins, other, stops]
  rfl

/-- What stands between separators contains none. -/
theorem fields_free (mem : t ∈ fields sep s) : Free sep t := by
  have pieces : ∀ cs : List Char, ∀ l ∈ cs.splitOn sep, sep ∉ l := by
    intro cs
    induction cs with
    | nil =>
      intro l mem
      rw [List.splitOn_nil] at mem
      rw [List.mem_singleton.mp mem]
      exact List.not_mem_nil
    | cons c cs ih =>
      intro l mem
      rw [List.splitOn_eq_splitOnP, List.splitOnP_cons_eq_if_modifyHead] at mem
      rw [List.splitOn_eq_splitOnP] at ih
      split at mem
      next =>
        rcases List.mem_cons.mp mem with rfl | mem
        · exact List.not_mem_nil
        · exact ih l mem
      next other =>
        cases pieces : cs.splitOnP (· == sep) with
        | nil => exact absurd pieces (List.splitOnP_ne_nil _ _)
        | cons first rest =>
          rw [pieces, List.modifyHead_cons] at mem
          rw [pieces] at ih
          rcases List.mem_cons.mp mem with rfl | mem
          · intro inside
            rcases List.mem_cons.mp inside with same | inside
            · exact other (beq_iff_eq.mpr same.symm)
            · exact ih first List.mem_cons_self inside
          · exact ih l (List.mem_cons_of_mem first mem)
  obtain ⟨l, inside, rfl⟩ := List.mem_map.mp mem
  rw [Free, String.toList_ofList]
  exact pieces _ l inside

theorem joined_fields (sep : Char) (s : String) : joined sep (fields sep s) = s := by
  have texts : (fields sep s).map String.toList = s.toList.splitOn sep := by
    rw [fields, List.map_map]
    exact (List.map_congr_left fun l _ => String.toList_ofList).trans (List.map_id' _)
  rw [← String.toList_inj, joined, String.toList_intercalate, String.toList_singleton, texts, List.intercalate_splitOn]

theorem splitOnce_iff : splitOnce sep s = some (p, t) ↔ s = p ++ (String.singleton sep ++ t) ∧ Free sep p := by
  constructor
  · intro found
    have whole : s.toList.takeWhile (· ≠ sep) ++ s.toList.dropWhile (· ≠ sep) = s.toList := List.takeWhile_append_dropWhile
    rw [splitOnce] at found
    cases rest : s.toList.dropWhile (· ≠ sep) with
    | nil =>
      rw [rest] at found
      cases found
    | cons c cs =>
      have stop := List.head?_dropWhile_not (· ≠ sep) s.toList
      rw [rest] at found stop whole
      cases found
      obtain rfl : c = sep := by simpa using stop
      constructor
      · rw [← String.toList_inj, String.toList_append, String.toList_append, String.toList_singleton,
          String.toList_ofList, String.toList_ofList]
        exact whole.symm
      · intro mem
        rw [String.toList_ofList] at mem
        have apart := List.all_eq_true.mp (List.all_takeWhile (p := (· ≠ c)) (l := s.toList)) c mem
        exact of_decide_eq_true apart rfl
  · rintro ⟨rfl, free⟩
    exact splitOnce_append free

/-- Nothing is left behind what passes exactly when all of it passes. -/
theorem dropWhile_nil_iff {keep : Char → Bool} : cs.dropWhile keep = [] ↔ ∀ c ∈ cs, keep c = true := by
  constructor
  · intro none
    have whole : cs.takeWhile keep ++ cs.dropWhile keep = cs := List.takeWhile_append_dropWhile
    rw [none, List.append_nil] at whole
    rw [← whole]
    exact List.all_eq_true.mp List.all_takeWhile
  · intro all
    rw [← List.append_nil cs, List.dropWhile_append_of_pos all, List.dropWhile_nil]

theorem passes_iff : (∀ c ∈ cs, decide (c ≠ sep) = true) ↔ sep ∉ cs := by
  constructor
  · exact fun passes mem => of_decide_eq_true (passes sep mem) rfl
  · exact fun free c mem => decide_eq_true fun same => free (same ▸ mem)

theorem splitOnce_none_iff : splitOnce sep s = none ↔ Free sep s := by
  rw [Free, ← passes_iff, ← dropWhile_nil_iff, splitOnce]
  cases s.toList.dropWhile (· ≠ sep) with
  | nil => exact iff_of_true rfl rfl
  | cons c cs => exact iff_of_false nofun (List.cons_ne_nil c cs)

theorem rsplitOnce_none_iff : rsplitOnce sep s = none ↔ Free sep s := by
  rw [Free, ← List.mem_reverse, ← passes_iff, ← dropWhile_nil_iff, rsplitOnce]
  cases s.toList.reverse.dropWhile (· ≠ sep) with
  | nil => exact iff_of_true rfl rfl
  | cons c cs => exact iff_of_false nofun (List.cons_ne_nil c cs)

theorem rsplitOnce_iff : rsplitOnce sep s = some (p, t) ↔ s = p ++ (String.singleton sep ++ t) ∧ Free sep t := by
  constructor
  · intro found
    refine ⟨eq_of_rsplitOnce found, fun mem => ?_⟩
    rw [rsplitOnce] at found
    split at found
    · cases found
    · cases found
      rw [String.toList_ofList, List.mem_reverse] at mem
      have apart := List.all_eq_true.mp (List.all_takeWhile (p := (· ≠ sep)) (l := s.toList.reverse)) sep mem
      exact of_decide_eq_true apart rfl
  · rintro ⟨rfl, free⟩
    exact rsplitOnce_append free

theorem fields_ne_nil : fields sep s ≠ [] := by
  rw [fields, ne_eq, List.map_eq_nil_iff]
  exact List.splitOnP_ne_nil _ _

theorem fields_of_free (free : Free sep s) : fields sep s = [s] := by
  have each : ∀ f ∈ [s], Free sep f := fun f mem => List.mem_singleton.mp mem ▸ free
  have one := fields_joined each (List.cons_ne_nil _ _)
  rwa [joined, String.intercalate_singleton] at one

theorem fields_before (free : Free sep p) : fields sep (p ++ (String.singleton sep ++ t)) = p :: fields sep t := by
  have each : ∀ f ∈ p :: fields sep t, Free sep f :=
    List.forall_mem_cons.mpr ⟨free, fun f mem => fields_free mem⟩
  have whole := fields_joined each (List.cons_ne_nil _ _)
  rwa [joined, String.intercalate_cons_of_ne_nil fields_ne_nil, ← joined, joined_fields, String.append_assoc] at whole

theorem fields_behind (free : Free sep t) : fields sep (p ++ (String.singleton sep ++ t)) = fields sep p ++ [t] := by
  have each : ∀ f ∈ fields sep p ++ [t], Free sep f := by
    intro f mem
    rcases List.mem_append.mp mem with mem | mem
    · exact fields_free mem
    · exact List.mem_singleton.mp mem ▸ free
  have whole := fields_joined each (List.append_ne_nil_of_right_ne_nil _ (List.cons_ne_nil _ _))
  rwa [joined, String.intercalate_append_of_ne_nil fields_ne_nil (List.cons_ne_nil _ _), String.intercalate_singleton,
    ← joined, joined_fields, String.append_assoc] at whole

/-- A text of one-byte characters is as long in bytes as in characters. -/
theorem utf8ByteSize_ofList (ascii : ∀ c ∈ cs, c.utf8Size = 1) : (String.ofList cs).utf8ByteSize = cs.length := by
  induction cs with
  | nil => rfl
  | cons c cs ih =>
    rw [String.ofList_cons, String.utf8ByteSize_append, String.utf8ByteSize_singleton,
      ascii c List.mem_cons_self, ih fun d mem => ascii d (List.mem_cons_of_mem c mem), List.length_cons,
      Nat.add_comm]

end Harpoon.Wire
