import Harpoon.Desktop.Forms
import Harpoon.Journal.Frame
import Harpoon.Wire.Number

/-!
# Local paths, in the desktop and in the engine

The desktop writes the URL of a folder and the engine reads it. They agree on a path exactly when its URL is
short enough and it has neither a control character beyond ASCII nor two dots in a row.
-/

namespace Harpoon.Desktop

open Git Deploy.Envvars

open Wire (Bytes utf8)

/-! ## Agreement -/

/-- The engine accepts the URL, and takes it for that path. -/
def Accepts (url p : String) : Prop :=
  validateUrl url = .ok .file ∧ ∃ path, Wire.stripPrefix "file://" url = some path ∧ fileUrlPath path = .ok p

/-- The desktop has a URL for the path exactly when the engine accepts one, and it is one of these. -/
def Agrees (p : String) : Prop :=
  ((fileUrlFor p).isSome ↔ ∃ url, Accepts url p) ∧ ∀ url, fileUrlFor p = some url → Accepts url p

/-- The bytes that the URL of a path takes. -/
def urlLength (p : String) : Nat := 7 + (utf8 p).foldr (fun b n => (if isPlain b then 1 else 3) + n) 0

/-- A path that is not written as a URL already and that the desktop refuses or the engine reads back from its
URL; or a URL of what the desktop refuses. -/
def Carried (p : String) : Prop :=
  match Wire.stripPrefix "file://" p with
  | some q => refusesPath q = true
  | none => refusesPath p = true ∨
      ((∀ c ∈ p.toList, isControl c = false) ∧ containsText ".." p = false ∧ urlLength p ≤ maxUrl)

/-! ## Bytes -/

theorem forall_byte {P : UInt8 → Prop} (all : ∀ n < 256, P (UInt8.ofNat n)) (b : UInt8) : P b := by
  have := all b.toNat b.toNat_lt
  rwa [UInt8.ofNat_toNat] at this

/-- What the byte is written as can be read back. -/
def readsBack (b : UInt8) : List Char → Bool
  | [c] => c.toNat = b.toNat && b ≠ 0x25 && isPlain b
  | [p, h, l] => p = '%' && b ≠ 0x2F && !isPlain b &&
      ((Wire.digitValue h).bind fun high => (Wire.digitValue l).map fun low => UInt8.ofNat (high * 16 + low)) = some b
  | _ => false

theorem urlByte_readsBack : ∀ b, readsBack b (urlByte b) = true := forall_byte (by decide +kernel)

/-- Of the characters that a URL is written with, each is plain ASCII. -/
theorem urlByte_chars : ∀ b, ((urlByte b).all fun c => 32 < c.toNat && c.toNat < 127) = true := forall_byte (by decide +kernel)

theorem urlByte_length : ∀ b, (urlByte b).length = if isPlain b then 1 else 3 := forall_byte (by decide +kernel)

theorem urlByte_dots : ∀ b, ('.' ∈ urlByte b ↔ b = 0x2E) := forall_byte (by decide +kernel)

/-- A plain character, as a byte. -/
def ord (c : Char) : UInt8 := UInt8.ofNat c.toNat

theorem ord_toNat {c : Char} (ascii : c.toNat < 128) : (ord c).toNat = c.toNat := by
  rw [ord, UInt8.toNat_ofNat', Nat.mod_eq_of_lt (by omega)]

theorem utf8_ascii {cs : List Char} (ascii : ∀ c ∈ cs, c.toNat < 128) : utf8 (String.ofList cs) = cs.map ord := by
  rw [Wire.utf8_eq, String.toList_ofList]
  induction cs with
  | nil => rfl
  | cons c cs ih =>
    have low : c.val.toNat ≤ 127 := Nat.le_of_lt_succ (ascii c List.mem_cons_self)
    rw [List.flatMap_cons, List.map_cons, ih fun d mem => ascii d (List.mem_cons_of_mem _ mem), String.utf8EncodeChar,
      if_pos low]
    rfl

/-- What the byte is written as decodes to the byte. -/
theorem percentDecoded_urlByte (b : UInt8) (rest : Bytes) :
    percentDecoded ((urlByte b).map ord ++ rest) = (b :: ·) <$> percentDecoded rest := by
  have back := urlByte_readsBack b
  have chars := List.all_eq_true.mp (urlByte_chars b)
  revert back chars
  generalize urlByte b = cs
  intro back chars
  have ascii : ∀ c ∈ cs, (ord c).toNat = c.toNat := fun c mem => by
    have := chars c mem
    simp only [Bool.and_eq_true, decide_eq_true_eq] at this
    exact ord_toNat (by omega)
  match cs with
  | [] => cases back
  | [c] =>
    simp only [readsBack, Bool.and_eq_true, decide_eq_true_eq] at back
    have same : ord c = b := UInt8.toNat_inj.mp ((ascii c List.mem_cons_self).trans back.1.1)
    show percentDecoded (ord c :: rest) = _
    rw [same, percentDecoded.eq_def]
    simp [back.1.2]
  | [p, h, l] =>
    simp only [readsBack, Bool.and_eq_true, decide_eq_true_eq] at back
    obtain ⟨⟨⟨rfl, slash⟩, _⟩, digits⟩ := back
    cases high : Wire.digitValue h with
    | none => rw [high] at digits; cases digits
    | some hi =>
      cases low : Wire.digitValue l with
      | none => rw [high, low] at digits; cases digits
      | some lo =>
        rw [high, low] at digits
        have byte : UInt8.ofNat (hi * 16 + lo) = b := Option.some.inj digits
        have h' : Char.ofNat (ord h).toNat = h := by rw [ascii h (by simp), Char.ofNat_toNat]
        have l' : Char.ofNat (ord l).toNat = l := by rw [ascii l (by simp), Char.ofNat_toNat]
        show percentDecoded (ord '%' :: ord h :: ord l :: rest) = _
        rw [percentDecoded.eq_def]
        simp only [show (ord '%' ≠ 0x25) = False from by decide, if_false, h', l', high, low, byte, slash]
  | [_, _] | _ :: _ :: _ :: _ :: _ => cases back

theorem percentDecoded_written (bs : Bytes) : percentDecoded ((bs.flatMap urlByte).map ord) = .ok bs := by
  induction bs with
  | nil => rfl
  | cons b bs ih =>
    rw [List.flatMap_cons, List.map_append, percentDecoded_urlByte, ih]
    rfl

/-! ## Characters -/

/-- A path, as its URL has it. -/
def written (p : String) : List Char := (utf8 p).flatMap urlByte

def charUrl (c : Char) : List Char := (String.utf8EncodeChar c).flatMap urlByte

theorem written_eq (p : String) : written p = p.toList.flatMap charUrl := by
  rw [written, Wire.utf8_eq, List.flatMap_assoc]
  rfl

theorem written_chars {p : String} : ∀ c ∈ written p, 32 < c.toNat ∧ c.toNat < 127 := by
  intro c mem
  obtain ⟨b, _, mem⟩ := List.mem_flatMap.mp mem
  have := List.all_eq_true.mp (urlByte_chars b) c mem
  simpa using this

theorem charUrl_some (c : Char) : charUrl c ≠ [] := by
  have encoded : String.utf8EncodeChar c ≠ [] := by
    intro none
    have := String.length_utf8EncodeChar c
    rw [none] at this
    exact absurd this.symm (Nat.ne_of_gt c.utf8Size_pos)
  intro none
  obtain ⟨b, bs, eq⟩ := List.exists_cons_of_ne_nil encoded
  rw [charUrl, eq, List.flatMap_cons] at none
  have short := urlByte_length b
  rw [(List.append_eq_nil_iff.mp none).1] at short
  split at short <;> cases short

theorem charUrl_dot {c : Char} (other : c ≠ '.') : '.' ∉ charUrl c := by
  intro mem
  obtain ⟨b, inside, mem⟩ := List.mem_flatMap.mp mem
  obtain rfl := (urlByte_dots b).mp mem
  exact other (Char.toNat_inj.mp (Wire.mem_utf8EncodeChar inside (by decide)))

section

variable {x : Char} {f : Char → List Char} {as bs : List Char}

theorem occurs_skip (none : x ∉ as) : occurs [x, x] (as ++ bs) = occurs [x, x] bs := by
  induction as with
  | nil => rfl
  | cons a as ih =>
    have other : (x == a) = false := by
      rw [beq_eq_false_iff_ne]
      rintro rfl
      exact none List.mem_cons_self
    rw [List.cons_append, occurs, List.isPrefixOf, other, Bool.false_and, Bool.false_or]
    exact ih fun mem => none (List.mem_cons_of_mem _ mem)

/-- Two of a character in a row stay so, if it alone is written with itself. -/
theorem occurs_flatMap (self : f x = [x]) (others : ∀ c, c ≠ x → x ∉ f c ∧ f c ≠ []) :
    occurs [x, x] (as.flatMap f) = occurs [x, x] as := by
  induction as with
  | nil => rfl
  | cons a as ih =>
    rw [List.flatMap_cons]
    by_cases same : a = x
    · subst same
      have next : [a].isPrefixOf (as.flatMap f) = [a].isPrefixOf as := by
        cases as with
        | nil => rfl
        | cons b bs =>
          rw [List.flatMap_cons]
          by_cases again : b = a
          · subst again
            rw [self]
            simp
          · obtain ⟨free, some⟩ := others b again
            obtain ⟨e, es, eq⟩ := List.exists_cons_of_ne_nil some
            rw [eq] at free ⊢
            have differs : (a == e) = false := beq_eq_false_iff_ne.mpr fun h => free (h ▸ List.mem_cons_self)
            have differs' : (a == b) = false := beq_eq_false_iff_ne.mpr fun h => again h.symm
            simp [List.isPrefixOf, differs, differs']
      rw [self]
      show occurs [a, a] (a :: as.flatMap f) = _
      rw [occurs, occurs, List.isPrefixOf, List.isPrefixOf, next, ih]
    · obtain ⟨free, _⟩ := others a same
      have differs : (x == a) = false := beq_eq_false_iff_ne.mpr fun h => same h.symm
      rw [occurs_skip free, ih, occurs, List.isPrefixOf, differs, Bool.false_and, Bool.false_or]

end

theorem dots_written (p : String) : containsText ".." (String.ofList (written p)) = containsText ".." p := by
  have chars : (String.ofList (written p)).toList = p.toList.flatMap charUrl := String.toList_ofList.trans (written_eq p)
  rw [containsText, containsText, chars]
  exact occurs_flatMap (by decide) fun c other => ⟨charUrl_dot other, charUrl_some c⟩

theorem absolute_written {p : String} (absolute : startsWith '/' p = true) :
    startsWith '/' (String.ofList (written p)) = true := by
  rw [startsWith, decide_eq_true_eq] at absolute ⊢
  rw [String.toList_ofList, written_eq]
  cases chars : p.toList with
  | nil => rw [chars] at absolute; cases absolute
  | cons c cs =>
    rw [chars] at absolute
    cases absolute
    rw [List.flatMap_cons, show charUrl '/' = ['/'] from by decide]
    rfl

theorem size_written (p : String) : ("file://" ++ String.ofList (written p)).utf8ByteSize = urlLength p := by
  have ascii : ∀ c ∈ written p, c.utf8Size = 1 := by
    intro c mem
    have low : c.val.toNat ≤ 127 := Nat.le_of_lt (written_chars c mem).2
    exact Char.utf8Size_eq_one_iff.mpr (UInt32.le_iff_toNat_le.mpr low)
  have size : ∀ bytes : Bytes, (bytes.flatMap urlByte).length = bytes.foldr (fun b n => (if isPlain b then 1 else 3) + n) 0 := by
    intro bytes
    induction bytes with
    | nil => rfl
    | cons b bytes ih => rw [List.flatMap_cons, List.length_append, urlByte_length, ih, List.foldr_cons]
  rw [String.utf8ByteSize_append, Wire.utf8ByteSize_ofList ascii, urlLength, written, size]
  rfl

/-! ## The engine -/

theorem checkDecoded_iff {p : String} :
    checkDecoded p = .ok () ↔ (∀ c ∈ p.toList, isControl c = false) ∧ startsWith '/' p = true ∧
      ((Wire.fields '/' p).any fun c => c = ".." || c = ".") = false := by
  have controls : p.toList.any isControl = false ↔ ∀ c ∈ p.toList, isControl c = false := by
    rw [List.any_eq_false]
    exact ⟨fun h c mem => Bool.eq_false_iff.mpr (h c mem), fun h c mem => Bool.eq_false_iff.mp (h c mem)⟩
  rw [← controls, checkDecoded]
  cases p.toList.any isControl with
  | true => simp
  | false => cases startsWith '/' p <;> cases (Wire.fields '/' p).any fun c => c = ".." || c = "." <;> simp

/-- The engine decodes once and checks what it has then. -/
theorem fileUrlPath_iff {url p : String} :
    fileUrlPath url = .ok p ↔ percentDecoded (utf8 url) = .ok (utf8 p) ∧ checkDecoded p = .ok () := by
  unfold fileUrlPath
  cases read : percentDecoded (utf8 url) with
  | error e => simp [Journal.mapError_error, bind, Except.bind]
  | ok bytes =>
    cases text : Wire.fromUtf8 bytes with
    | none =>
      have other : bytes ≠ utf8 p := by
        rintro rfl
        rw [Wire.fromUtf8_utf8] at text
        cases text
      simp [text, Journal.mapError_ok, bind, Except.bind, other]
    | some q =>
      obtain rfl := Wire.utf8_of_fromUtf8 text
      have same : utf8 q = utf8 p ↔ q = p := by
        refine ⟨fun same => ?_, congrArg utf8⟩
        rw [same, Wire.fromUtf8_utf8] at text
        exact (Option.some.inj text).symm
      cases checked : checkDecoded q with
      | error e =>
        have refused : q = p → checkDecoded p ≠ .ok () := by
          rintro rfl accepted
          rw [checked] at accepted
          cases accepted
        simpa [Journal.mapError_ok, Journal.mapError_error, checked, bind, Except.bind, same] using refused
      | ok u =>
        have accepted : q = p → checkDecoded p = .ok () := by
          rintro rfl
          exact checked
        simpa [Journal.mapError_ok, checked, bind, Except.bind, pure, Except.pure, same] using accepted

/-- What the engine takes a URL for is a path that it accepts. -/
theorem checked_of_accepts {url p : String} (accepts : Accepts url p) : checkDecoded p = .ok () := by
  obtain ⟨_, path, _, decoded⟩ := accepts
  exact (fileUrlPath_iff.mp decoded).2

theorem fileUrlPath_written {p : String} (checked : checkDecoded p = .ok ()) :
    fileUrlPath (String.ofList (written p)) = .ok p := by
  have bytes : utf8 (String.ofList (written p)) = (written p).map ord :=
    utf8_ascii fun c mem => Nat.lt_succ_of_lt (written_chars c mem).2
  refine fileUrlPath_iff.mpr ⟨?_, checked⟩
  rw [bytes]
  exact percentDecoded_written (utf8 p)

theorem urlChars {p : String} :
    ("file://" ++ String.ofList (written p)).toList = ['f', 'i', 'l', 'e', ':', '/', '/'] ++ written p := by
  have chars : (String.ofList (written p)).toList = written p := String.toList_ofList
  rw [String.toList_append, chars]
  rfl

theorem validateUrl_written {p : String} (checked : checkDecoded p = .ok ()) (dots : containsText ".." p = false)
    (short : urlLength p ≤ maxUrl) : validateUrl ("file://" ++ String.ofList (written p)) = .ok .file := by
  have size := size_written p
  generalize url : "file://" ++ String.ofList (written p) = u at size
  have chars : u.toList = 'f' :: (['i', 'l', 'e', ':', '/', '/'] ++ written p) := url ▸ urlChars
  have plain : u.toList.find? (fun c => isControl c || isWhitespace c) = none := by
    rw [List.find?_eq_none, chars]
    intro c mem
    have range : 32 < c.toNat ∧ c.toNat < 127 := by
      rcases List.mem_append.mp (show c ∈ ['f', 'i', 'l', 'e', ':', '/', '/'] ++ written p from mem) with mem | mem
      · have scheme : ∀ c ∈ ['f', 'i', 'l', 'e', ':', '/', '/'], 32 < c.toNat ∧ c.toNat < 127 :=
          Wire.forall_mem_of_all (by decide)
        exact scheme c mem
      · exact written_chars c mem
    simp only [isControl, isWhitespace, Bool.or_eq_true, Bool.and_eq_true, decide_eq_true_eq]
    omega
  have some : u.isEmpty = false := by
    rw [Bool.eq_false_iff]
    intro empty
    rw [String.isEmpty_iff.mp empty] at chars
    cases chars
  have first : startsWith '-' u = false := by
    rw [startsWith, chars]
    rfl
  have transport : validateTransport u = validateFile (String.ofList (written p)) := by
    unfold validateTransport
    rw [Wire.stripPrefix_none (p := "https://") (c := 'h') rfl chars (by decide),
      Wire.stripPrefix_none (p := "http://") (c := 'h') rfl chars (by decide),
      Wire.stripPrefix_none (p := "ssh://") (c := 's') rfl chars (by decide), ← url, Wire.stripPrefix_append]
  have path : validateFile (String.ofList (written p)) = .ok .file := by
    unfold validateFile
    rw [absolute_written (checkDecoded_iff.mp checked).2.1, dots_written, dots, fileUrlPath_written checked]
    rfl
  unfold validateUrl
  rw [some, size, decide_eq_false (Nat.not_lt.mpr short), first, plain]
  simp only [Bool.or_self, Bool.false_eq_true, if_false]
  exact transport.trans path

/-- An accepted URL of a path is short and has no two dots in a row. -/
theorem limits_of_validateUrl {p : String} (accepted : validateUrl ("file://" ++ String.ofList (written p)) = .ok .file) :
    containsText ".." p = false ∧ urlLength p ≤ maxUrl := by
  have size := size_written p
  have chars := urlChars (p := p)
  have path := @Wire.stripPrefix_append "file://" (String.ofList (written p))
  generalize "file://" ++ String.ofList (written p) = u at accepted size chars path
  unfold validateUrl at accepted
  split at accepted
  · cases accepted
  next bounded =>
    have short : urlLength p ≤ maxUrl := by
      rw [size] at bounded
      simp only [Bool.or_eq_true, decide_eq_true_eq, not_or, Nat.not_lt] at bounded
      exact bounded.2
    refine ⟨?_, short⟩
    split at accepted
    · cases accepted
    · split at accepted
      · cases accepted
      · unfold validateTransport at accepted
        rw [Wire.stripPrefix_none (p := "https://") (c := 'h') rfl chars (by decide),
          Wire.stripPrefix_none (p := "http://") (c := 'h') rfl chars (by decide),
          Wire.stripPrefix_none (p := "ssh://") (c := 's') rfl chars (by decide), path] at accepted
        dsimp only at accepted
        unfold validateFile at accepted
        split at accepted
        · cases accepted
        next fine =>
          simp only [Bool.or_eq_true, Bool.not_eq_true', not_or, Bool.not_eq_true] at fine
          rw [← dots_written]
          exact fine.2

/-! ## Where they agree -/

theorem refusesPath_false {p : String} (carried : refusesPath p = false) :
    startsWith '/' p = true ∧ ((Wire.fields '/' p).any fun c => c = ".." || c = ".") = false := by
  unfold refusesPath at carried
  simp only [Bool.or_eq_false_iff, Bool.not_eq_false'] at carried
  exact ⟨carried.1.1, carried.2⟩

/-- The engine refuses what the desktop refuses. -/
theorem refused_of_refusesPath {p : String} (refuses : refusesPath p = true) : checkDecoded p ≠ .ok () := by
  intro checked
  obtain ⟨controls, absolute, components⟩ := checkDecoded_iff.mp checked
  have ascii : p.toList.any (fun c => c.toNat < 32 || c.toNat = 127) = false := by
    rw [List.any_eq_false]
    intro c mem
    have plain := controls c mem
    simp only [isControl, Bool.or_eq_false_iff, Bool.and_eq_false_iff, decide_eq_false_iff_not] at plain
    simp only [Bool.or_eq_true, decide_eq_true_eq]
    omega
  rw [refusesPath, absolute, ascii, components] at refuses
  cases refuses

theorem not_absolute {p q : String} (url : Wire.stripPrefix "file://" p = some q) : checkDecoded p ≠ .ok () := by
  intro checked
  have absolute := (checkDecoded_iff.mp checked).2.1
  rw [Wire.eq_of_stripPrefix url, startsWith, String.toList_append] at absolute
  cases absolute

/-- The desktop has no URL for a path that the engine refuses. -/
theorem agrees_of_refused {p : String} (none : fileUrlFor p = none) (refused : checkDecoded p ≠ .ok ()) : Agrees p := by
  refine ⟨⟨fun some => ?_, fun ⟨_, accepts⟩ => absurd (checked_of_accepts accepts) refused⟩, fun url some => ?_⟩
  · rw [none] at some
    cases some
  · cases none.symm.trans some

theorem agrees_iff {p url : String} (some : fileUrlFor p = some url) : Agrees p ↔ Accepts url p := by
  refine ⟨fun agrees => agrees.2 url some, fun accepts => ⟨⟨fun _ => ⟨url, accepts⟩, fun _ => some ▸ rfl⟩, ?_⟩⟩
  intro other same
  cases some.symm.trans same
  exact accepts

/-- The desktop and the engine agree on a path exactly when the desktop refuses it and it is no URL of a path, or
its URL is short enough and it has no control character and no two dots in a row. -/
theorem paths_agree (p : String) : Agrees p ↔ Carried p := by
  unfold Carried
  cases stripped : Wire.stripPrefix "file://" p with
  | some q =>
    cases refuses : refusesPath q with
    | true =>
      have none : fileUrlFor p = none := by rw [fileUrlFor, stripped, Option.getD_some, refuses]; rfl
      exact iff_of_true (agrees_of_refused none (not_absolute stripped)) refuses
    | false =>
      have some : fileUrlFor p = some ("file://" ++ String.ofList (written q)) := by
        rw [fileUrlFor, stripped, Option.getD_some, refuses]
        rfl
      refine iff_of_false (fun agrees => ?_) fun carried => nomatch refuses.symm.trans carried
      exact not_absolute stripped (checked_of_accepts ((agrees_iff some).mp agrees))
  | none =>
    cases refuses : refusesPath p with
    | true =>
      have none : fileUrlFor p = none := by rw [fileUrlFor, stripped, Option.getD_none, refuses]; rfl
      exact iff_of_true (agrees_of_refused none (refused_of_refusesPath refuses)) (.inl rfl)
    | false =>
      obtain ⟨absolute, components⟩ := refusesPath_false refuses
      have some : fileUrlFor p = some ("file://" ++ String.ofList (written p)) := by
        rw [fileUrlFor, stripped, Option.getD_none, refuses]
        rfl
      rw [agrees_iff some]
      refine ⟨fun accepts => .inr ?_, ?_⟩
      · have checked := checked_of_accepts accepts
        obtain ⟨dots, short⟩ := limits_of_validateUrl accepts.1
        exact ⟨(checkDecoded_iff.mp checked).1, dots, short⟩
      · rintro (no | ⟨controls, dots, short⟩)
        · cases no
        · have checked : checkDecoded p = .ok () := checkDecoded_iff.mpr ⟨controls, absolute, components⟩
          exact ⟨validateUrl_written checked dots short, _, Wire.stripPrefix_append, fileUrlPath_written checked⟩

/-- A name with two dots in it: the desktop's URL is refused. -/
theorem dotted_name_refused : ¬ Agrees "/src/notes..old" := by
  have some : fileUrlFor "/src/notes..old" = some ("file://" ++ String.ofList (written "/src/notes..old")) := by
    decide
  intro agrees
  have plain := (limits_of_validateUrl ((agrees_iff some).mp agrees).1).1
  exact absurd plain (by decide)

end Harpoon.Desktop
