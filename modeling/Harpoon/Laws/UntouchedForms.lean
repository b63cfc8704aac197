import Harpoon.Laws.FileUrl
import Harpoon.Laws.FormRules

/-!
# A form that nobody touched

The form of a registration shows a folder by its path, and an edit encodes the path again. So an untouched form asks
for nothing exactly when the URL is spelled as the desktop spells it, and no text has white space at its ends, which an
edit takes away.
-/

namespace Harpoon.Forms

open Desktop (fileUrlFor isPlain urlByte written ord forall_byte refusesPath)
open Wire (Bytes utf8 utf8_eq fromUtf8 fromUtf8_utf8)
open Git

/-! ## Spelling -/

/-- The value of a digit of an escape as the desktop writes it, with capital letters. -/
def capitalValue (b : UInt8) : Option Nat :=
  if 97 ≤ b.toNat then none else Wire.digitValue (Char.ofNat b.toNat)

/-- Every byte stands for itself where it can, and in an escape with capital letters where it cannot. -/
def Spelled : Bytes → Bool
  | [] => true
  | b :: rest =>
    if b ≠ 0x25 then isPlain b && Spelled rest
    else
      match rest with
      | h :: l :: rest =>
        match capitalValue h, capitalValue l with
        | some high, some low => !isPlain (UInt8.ofNat (high * 16 + low)) && Spelled rest
        | _, _ => false
      | _ => false

/-- The text neither begins nor ends with white space. -/
def Tight (s : String) : Prop := s.toList.head?.any isTrimmed = false ∧ s.toList.getLast?.any isTrimmed = false

/-- An edit would send the same URL. -/
def Kept (url : String) : Prop :=
  match Wire.stripPrefix "file://" url with
  | some path => Spelled (utf8 path) = true ∧ ∀ p, fileUrlPath path = .ok p → Tight p
  | none => Tight url

/-- Every text of the registration is as an edit would send it. -/
structure Settled (r : RepoRec) : Prop where
  url : Kept r.url
  branch : Tight r.branch
  dockerfile : ∀ path, r.dockerfile = some path → Tight path
  healthPath : ∀ path, r.healthPath = some path → Tight path

section

variable {s path p : String} {b : UInt8} {x y : Bytes} {may : UInt8 → Prop}

/-! ### Bytes -/

theorem capital_digit : ∀ b, ((capitalValue b).all fun d => d < 16 && b = ord d.digitChar.toUpper &&
    Wire.digitValue (Char.ofNat b.toNat) = some d) = true := forall_byte (by decide +kernel)

theorem plain_byte : ∀ b, (!isPlain b || (urlByte b).map ord = [b] && b ≠ 0x25) = true := forall_byte (by decide +kernel)

theorem escaped_byte : ∀ b, (isPlain b ||
    (urlByte b).map ord = [0x25, ord (b.toNat / 16).digitChar.toUpper, ord (b.toNat % 16).digitChar.toUpper] &&
    capitalValue (ord (b.toNat / 16).digitChar.toUpper) = some (b.toNat / 16) &&
    capitalValue (ord (b.toNat % 16).digitChar.toUpper) = some (b.toNat % 16)) = true := forall_byte (by decide +kernel)

theorem urlByte_plain (plain : isPlain b = true) : (urlByte b).map ord = [b] ∧ b ≠ 0x25 := by
  have byte := plain_byte b
  rw [plain] at byte
  simpa using byte

theorem urlByte_escaped (other : isPlain b = false) :
    (urlByte b).map ord = [0x25, ord (b.toNat / 16).digitChar.toUpper, ord (b.toNat % 16).digitChar.toUpper] ∧
      capitalValue (ord (b.toNat / 16).digitChar.toUpper) = some (b.toNat / 16) ∧
      capitalValue (ord (b.toNat % 16).digitChar.toUpper) = some (b.toNat % 16) := by
  have byte := escaped_byte b
  rw [other] at byte
  simpa [and_assoc] using byte

theorem capitalValue_some {d : Nat} (value : capitalValue b = some d) :
    d < 16 ∧ b = ord d.digitChar.toUpper ∧ Wire.digitValue (Char.ofNat b.toNat) = some d := by
  have byte := capital_digit b
  rw [value] at byte
  simpa [and_assoc] using byte

theorem halves {high low : Nat} (first : high < 16) (second : low < 16) :
    (UInt8.ofNat (high * 16 + low)).toNat / 16 = high ∧ (UInt8.ofNat (high * 16 + low)).toNat % 16 = low := by
  rw [UInt8.toNat_ofNat', Nat.mod_eq_of_lt (by omega)]
  omega

/-! ### Texts -/

theorem spelled_urlByte (b : UInt8) (rest : Bytes) : Spelled ((urlByte b).map ord ++ rest) = Spelled rest := by
  cases plain : isPlain b with
  | true =>
    obtain ⟨same, other⟩ := urlByte_plain plain
    rw [same, List.singleton_append, Spelled.eq_def]
    simp only [ne_eq, other, not_false_eq_true, if_true, plain, Bool.true_and]
  | false =>
    obtain ⟨same, first, second⟩ := urlByte_escaped plain
    have byte : UInt8.ofNat (b.toNat / 16 * 16 + b.toNat % 16) = b := by
      rw [Nat.div_add_mod' b.toNat 16, UInt8.ofNat_toNat]
    rw [same, List.cons_append, List.cons_append, List.singleton_append, Spelled.eq_def]
    simp only [ne_eq, not_true_eq_false, if_false, first, second, byte, plain, Bool.not_false, Bool.true_and]

/-- What the desktop writes is spelled so. -/
theorem spelled_written (y : Bytes) : Spelled ((y.flatMap urlByte).map ord) = true := by
  induction y with
  | nil => rfl
  | cons b y ih => rw [List.flatMap_cons, List.map_append, spelled_urlByte, ih]

/-- What is spelled so is what the desktop writes for the bytes that it stands for. -/
theorem written_of_spelled (decodes : Decodes may x y) (spelled : Spelled x = true) : x = (y.flatMap urlByte).map ord := by
  induction decodes with
  | done => rfl
  | @plain b us bs other _ ih =>
    rw [Spelled.eq_def] at spelled
    simp only [ne_eq, other, not_false_eq_true, if_true, Bool.and_eq_true] at spelled
    rw [List.flatMap_cons, List.map_append, ← ih spelled.2, (urlByte_plain spelled.1).1]
    rfl
  | @escape h l high low us bs first second _ _ ih =>
    rw [Spelled.eq_def] at spelled
    simp only [ne_eq, not_true_eq_false, if_false] at spelled
    cases capital : capitalValue h with
    | none =>
      rw [capital] at spelled
      cases spelled
    | some high' =>
      cases capital' : capitalValue l with
      | none =>
        rw [capital, capital'] at spelled
        cases spelled
      | some low' =>
        obtain ⟨small, digit, same⟩ := capitalValue_some capital
        obtain ⟨small', digit', same'⟩ := capitalValue_some capital'
        cases first.symm.trans same
        cases second.symm.trans same'
        rw [capital, capital', Bool.and_eq_true, Bool.not_eq_true'] at spelled
        have escaped := (urlByte_escaped spelled.1).1
        rw [(halves small small').1, (halves small small').2, ← digit, ← digit'] at escaped
        rw [List.flatMap_cons, List.map_append, ← ih spelled.2, escaped]
        rfl

/-- A component stands for the bytes that the engine decodes. -/
theorem octets_of_decodes (decodes : Decodes may x y) : octets x = some y := by
  induction decodes with
  | done => rfl
  | plain other _ ih =>
    rw [octets.eq_def]
    simp only [other, ne_eq, not_false_eq_true, if_true, ih]
    rfl
  | escape first second _ _ ih =>
    rw [octets.eq_def]
    simp only [ne_eq, not_true_eq_false, if_false, first, second, ih]
    rfl

/-! ## White space -/

theorem trimEnd_cons {c : Char} (solid : isTrimmed c = false) (cs : List Char) :
    ((c :: cs).reverse.dropWhile isTrimmed).reverse = c :: (cs.reverse.dropWhile isTrimmed).reverse := by
  rw [List.reverse_cons, List.dropWhile_append]
  split
  · next none =>
    rw [List.isEmpty_iff.mp none, List.dropWhile_cons_of_neg (by simp [solid])]
    rfl
  · rw [List.reverse_append]
    rfl

theorem tight_cons {c : Char} {cs : List Char} (chars : s.toList = c :: cs) (solid : isTrimmed c = false) :
    Tight s ↔ (s.toList.reverse.dropWhile isTrimmed).reverse = s.toList := by
  rw [List.reverse_eq_iff, Tight, ← List.head?_reverse, chars]
  constructor
  · rintro ⟨-, last⟩
    cases back : (c :: cs).reverse with
    | nil => rfl
    | cons d ds =>
      rw [back] at last
      exact List.dropWhile_cons_of_neg (by simpa using last)
  · intro kept
    refine ⟨solid, ?_⟩
    have first := List.head?_dropWhile_not isTrimmed (c :: cs).reverse
    rw [kept] at first
    cases back : (c :: cs).reverse with
    | nil => rfl
    | cons d ds =>
      rw [back] at first
      exact first

theorem trim_toList {c : Char} {cs : List Char} (chars : s.toList = c :: cs) (solid : isTrimmed c = false) :
    (trim s).toList = (s.toList.reverse.dropWhile isTrimmed).reverse := by
  rw [trim, String.toList_ofList, chars, List.dropWhile_cons_of_neg (by simp [solid])]

theorem trim_eq_iff : trim s = s ↔ Tight s := by
  cases chars : s.toList with
  | nil =>
    have none : s = "" := String.toList_eq_nil_iff.mp chars
    rw [none]
    exact iff_of_true rfl ⟨rfl, rfl⟩
  | cons c cs =>
    cases solid : isTrimmed c with
    | false => rw [tight_cons chars solid, ← String.toList_inj, trim_toList chars solid]
    | true =>
      refine iff_of_false (fun kept => ?_) fun tight => ?_
      · have short : (trim s).toList.length ≤ cs.length := by
          rw [trim, String.toList_ofList, List.length_reverse, chars, List.dropWhile_cons_of_pos solid]
          refine Nat.le_trans (List.dropWhile_suffix _).length_le ?_
          rw [List.length_reverse]
          exact (List.dropWhile_suffix _).length_le
        rw [kept, chars, List.length_cons] at short
        omega
      · rw [Tight, chars] at tight
        exact absurd tight.1 (by simp [solid])

theorem tight_of_solid (solid : ∀ c ∈ s.toList, isTrimmed c = false) : Tight s := by
  constructor
  · cases first : s.toList.head? with
    | none => rfl
    | some c => exact solid c (List.mem_of_head? first)
  · cases last : s.toList.getLast? with
    | none => rfl
    | some c => exact solid c (List.mem_of_getLast? last)

/-! ## Locations -/

theorem absolute_chars (clean : CleanPath p) : ∃ cs, p.toList = '/' :: cs := by
  have absolute := clean.absolute
  cases chars : p.toList with
  | nil =>
    rw [chars] at absolute
    cases absolute
  | cons c cs =>
    rw [chars] at absolute
    cases absolute
    exact ⟨cs, rfl⟩

/-- The folder of a URL is shown by its path. -/
theorem displayUrl_file (accepted : fileUrlPath path = .ok p) : displayUrl ("file://" ++ path) = p := by
  obtain ⟨decodes, clean⟩ := fileUrlPath_clean.mp accepted
  have decoded : decodeURIComponent path = some p := by
    rw [decodeURIComponent, octets_of_decodes decodes, Option.bind_some, fromUtf8_utf8]
  have absolute : startsWith '/' p = true := decide_eq_true clean.absolute
  have plain : hasControl p = false := by
    rw [hasControl_eq, List.any_eq_false]
    intro c mem low
    have := isControl_eq c
    rw [clean.plain c mem, low] at this
    cases this
  rw [displayUrl, Wire.stripPrefix_append]
  dsimp only
  rw [decoded]
  dsimp only
  rw [absolute, plain]
  rfl

theorem displayUrl_other (other : Wire.stripPrefix "file://" s = none) : displayUrl s = s := by
  rw [displayUrl, other]

/-- Such a path is encoded again unless white space ends it. -/
theorem fileUrlFor_trim (accepted : fileUrlPath path = .ok p) :
    fileUrlFor (trim p) = some ("file://" ++ path) ↔ Spelled (utf8 path) = true ∧ Tight p := by
  obtain ⟨decodes, clean⟩ := fileUrlPath_clean.mp accepted
  obtain ⟨cs, chars⟩ := absolute_chars clean
  have first : (trim p).toList = '/' :: (cs.reverse.dropWhile isTrimmed).reverse := by
    rw [trim_toList chars rfl, chars, trimEnd_cons rfl]
  have written_ : ∀ q, utf8 (String.ofList (written q)) = ((utf8 q).flatMap urlByte).map ord := fun q =>
    Desktop.utf8_ascii fun c mem => Nat.lt_succ_of_lt (Desktop.written_chars c mem).2
  have bare : fileUrlFor (trim p) =
      if refusesPath (trim p) then none else some ("file://" ++ String.ofList (written (trim p))) := by
    rw [fileUrlFor, Wire.stripPrefix_none (p := "file://") (c := 'f') rfl first (by decide)]
    rfl
  rw [bare, ← trim_eq_iff]
  constructor
  · intro sent
    split at sent
    · cases sent
    · have same : String.ofList (written (trim p)) = path :=
        String.append_right_inj _ |>.mp (Option.some.inj sent)
      have read := percentDecoded_iff.mpr decodes
      rw [← same, written_, Desktop.percentDecoded_written] at read
      have kept := congrArg fromUtf8 (Except.ok.inj read)
      rw [fromUtf8_utf8, fromUtf8_utf8] at kept
      refine ⟨?_, Option.some.inj kept⟩
      rw [← same, written_, spelled_written]
  · rintro ⟨spelled, kept⟩
    have goes : refusesPath p = false :=
      Bool.eq_false_iff.mpr fun refuses => Desktop.refused_of_refusesPath refuses (checkDecoded_clean.mpr clean)
    have same : utf8 path = utf8 (String.ofList (written p)) := by
      rw [written_, ← written_of_spelled decodes spelled]
    have same' := congrArg fromUtf8 same
    rw [fromUtf8_utf8, fromUtf8_utf8] at same'
    rw [kept, goes, ← Option.some.inj same']
    rfl

/-- An accepted `file://` URL names a path. -/
theorem path_of_validateUrl {kind : UrlKind} (accepted : validateUrl ("file://" ++ path) = .ok kind) :
    ∃ p, fileUrlPath path = .ok p := by
  have chars : ("file://" ++ path).toList = 'f' :: (['i', 'l', 'e', ':', '/', '/'] ++ path.toList) := by
    rw [String.toList_append]
    rfl
  have path_ := @Wire.stripPrefix_append "file://" path
  generalize "file://" ++ path = u at accepted chars path_
  unfold validateUrl at accepted
  split at accepted
  · cases accepted
  · split at accepted
    · cases accepted
    · split at accepted
      · cases accepted
      · unfold validateTransport at accepted
        rw [Wire.stripPrefix_none (p := "https://") (c := 'h') rfl chars (by decide),
          Wire.stripPrefix_none (p := "http://") (c := 'h') rfl chars (by decide),
          Wire.stripPrefix_none (p := "ssh://") (c := 's') rfl chars (by decide), path_] at accepted
        dsimp only at accepted
        unfold validateFile at accepted
        split at accepted
        · cases accepted
        · obtain ⟨p, read, _⟩ := Journal.bind_ok accepted
          exact ⟨p, read⟩

theorem some_of_validateUrl {kind : UrlKind} (accepted : validateUrl s = .ok kind) : s ≠ "" := by
  rintro rfl
  cases accepted

end

/-! ## The form -/

section

variable {r : RepoRec} {kind : UrlKind} {now : String} {x : Except String String} {confirm : Bool}

theorem editedUrl_folder {f : RegistrationForm} {url : String} (folder : f.kind = .folder) :
    editedUrl f = .ok url ↔ fileUrlFor (trim f.location) = some url := by
  rw [editedUrl, folder]
  dsimp only
  cases fileUrlFor (trim f.location) with
  | none => exact iff_of_false nofun nofun
  | some sent => exact ⟨fun same => congrArg _ (Except.ok.inj same), fun same => congrArg _ (Option.some.inj same)⟩

theorem editedUrl_git {f : RegistrationForm} {url : String} (git : f.kind = .git) (some_ : url ≠ "") :
    editedUrl f = .ok url ↔ trim f.location = url := by
  rw [editedUrl, git]
  dsimp only
  split
  · next empty =>
    rw [empty]
    exact iff_of_false nofun fun same => some_ same.symm
  · exact ⟨fun same => Except.ok.inj same, congrArg _⟩

theorem editedUrl_iff (accepted : validateUrl r.url = .ok kind) :
    editedUrl (registrationFormOf (.of r)) = .ok r.url ↔ Kept r.url := by
  rw [Kept]
  cases strip : Wire.stripPrefix "file://" r.url with
  | none =>
    have git : (registrationFormOf (.of r)).kind = .git := by
      rw [registrationFormOf, EngineRepo.of, strip]
      rfl
    have shown : (registrationFormOf (.of r)).location = r.url := displayUrl_other strip
    rw [editedUrl_git git (some_of_validateUrl accepted), shown, trim_eq_iff]
  | some path =>
    have url := Wire.eq_of_stripPrefix strip
    obtain ⟨p, read⟩ := path_of_validateUrl (url ▸ accepted)
    have folder : (registrationFormOf (.of r)).kind = .folder := by
      rw [registrationFormOf, EngineRepo.of, strip]
      rfl
    have shown : (registrationFormOf (.of r)).location = p := by
      show displayUrl r.url = p
      rw [url, displayUrl_file read]
    have one : (∀ q, fileUrlPath path = .ok q → Tight q) ↔ Tight p :=
      ⟨fun every => every p read, fun tight q read' => Except.ok.inj (read.symm.trans read') ▸ tight⟩
    dsimp only
    rw [editedUrl_folder folder, shown, one, ← fileUrlFor_trim read, url]

theorem editedBranch_iff (accepted : checkRefName r.branch = .ok ()) :
    editedBranch (registrationFormOf (.of r)) = .ok r.branch ↔ Tight r.branch := by
  have some_ : r.branch ≠ "" := by
    intro empty
    rw [empty] at accepted
    cases accepted
  have form : editedBranch (registrationFormOf (.of r)) =
      if trim r.branch = "" then .error "A branch is required." else .ok (trim r.branch) := rfl
  rw [form, ← trim_eq_iff]
  split
  · next empty =>
    rw [empty]
    exact iff_of_false nofun fun same => some_ same.symm
  · exact ⟨fun same => Except.ok.inj same, congrArg _⟩

/-- A path that is set and shown as it is stays. -/
theorem editedPath_iff (label : String) (was : Option String) :
    editedPath label (trim (was.getD "")) (was.getD "") = .ok none ↔ ∀ path, was = some path → Tight path := by
  have tight : (∀ path, was = some path → Tight path) ↔ trim (was.getD "") = was.getD "" := by
    cases was with
    | none => exact iff_of_true nofun rfl
    | some path => exact ⟨fun every => trim_eq_iff.mpr (every path rfl),
      fun kept q same => Option.some.inj same ▸ trim_eq_iff.mp kept⟩
  rw [tight, editedPath]
  generalize trim (was.getD "") = now
  generalize was.getD "" = before
  split
  · next cleared =>
    refine iff_of_false nofun fun same => cleared.2 (same ▸ cleared.1)
  · next kept =>
    rw [differing]
    by_cases same : now = before
    · rw [if_neg (c := now ≠ before) (not_not_intro same), ite_self]
      exact iff_of_true rfl same
    · have filled : now ≠ "" := fun empty => kept ⟨empty, fun empty' => same (empty.trans empty'.symm)⟩
      rw [if_pos filled, if_pos same]
      exact iff_of_false nofun same

theorem differing_none {α : Type} [DecidableEq α] {now was : α} : differing now was = none ↔ now = was := by
  rw [differing]
  split
  · next other => exact iff_of_false nofun other
  · next same => exact iff_of_true rfl (Decidable.not_not.mp same)

theorem changed_nil {op : UpdateRepo} : op.changed = [] ↔
    op.url = none ∧ op.branch = none ∧ op.dockerfile = none ∧ op.healthPath = none ∧ op.containerPort = none := by
  simp [UpdateRepo.changed]

/-! ### The port -/

theorem nearestWhole_self {n : Nat} (some_ : n ≠ 0) (fits : n.log2 ≤ 52) : nearestWhole n 1 = some n := by
  have whole : ¬ n < 1 := by omega
  have exact_ : ¬ (1 < 2 * 0 ∨ 1 = 2 * 0 ∧ n <<< (52 - n.log2) % 2 = 1) := by omega
  rw [nearestWhole, if_neg whole, Nat.div_one, Nat.div_one, Nat.mod_one, if_neg exact_, Nat.shiftLeft_shiftRight, if_neg (by omega)]

theorem isTrimmed_digit {c : Char} (digit : c.isDigit = true) : isTrimmed c = false := by
  have range : 48 ≤ c.toNat ∧ c.toNat ≤ 57 := by
    simp only [Char.isDigit, Bool.and_eq_true, decide_eq_true_iff] at digit
    exact ⟨UInt32.le_iff_toNat_le.mp digit.1, UInt32.le_iff_toNat_le.mp digit.2⟩
  simp only [isTrimmed, Bool.or_eq_false_iff, Bool.and_eq_false_iff, decide_eq_false_iff_not]
  omega

theorem decimalNumber_digits {ds : List Char} (digits : ∀ d ∈ ds, d.isDigit = true) (some_ : ds ≠ []) :
    decimalNumber ds = nearestWhole (spelled 10 ds) 1 := by
  have all : ds.takeWhile Char.isDigit = ds := by
    rw [← List.append_nil ds, List.takeWhile_append_of_pos (by simpa using digits), List.takeWhile_nil]
  have rest : ds.dropWhile Char.isDigit = [] := by
    rw [← List.append_nil ds, List.dropWhile_append_of_pos (by simpa using digits), List.dropWhile_nil]
  have unit : spelled 10 ['1'] = 1 := by decide
  rw [decimalNumber, all, rest]
  simp only [List.head?_nil, exponentPart, List.append_nil, List.replicate_zero, List.length_nil, unit, reduceCtorEq, if_false]
  exact if_neg fun none => some_ none.1

/-- A number is read back as it is shown. -/
theorem number_repr {n : Nat} (some_ : n ≠ 0) (fits : n.log2 ≤ 52) : number n.repr = some n := by
  have digits : ∀ d ∈ n.repr.toList, d.isDigit = true := fun d mem => by
    rw [Nat.toList_repr] at mem
    exact Nat.isDigit_of_mem_toDigits (by decide) (by decide) mem
  have filled : n.repr.toList ≠ [] := by
    rw [Nat.toList_repr]
    exact Nat.toDigits_ne_nil
  have value : spelled 10 n.repr.toList = n := by
    rw [spelled, Nat.toList_repr, Wire.readDigits_toDigits (by decide) (by decide)]
    rfl
  have solid : ∀ d ∈ n.repr.toList, isTrimmed d = false := fun d mem => isTrimmed_digit (digits d mem)
  have kept : trim n.repr = n.repr := trim_eq_iff.mpr (tight_of_solid solid)
  have decimal := decimalNumber_digits digits filled
  rw [value, nearestWhole_self some_ fits] at decimal
  rw [number, kept]
  revert digits decimal
  cases n.repr.toList with
  | nil => exact fun _ decimal => decimal
  | cons d ds =>
    intro digits decimal
    split
    · next sign =>
      have digit := digits d List.mem_cons_self
      cases sign
      cases digit
    · next x cs zero =>
      cases zero
      have digit := digits x (by simp)
      have none : radixOf x = none := by
        have other : ∀ l ∈ ['x', 'X', 'o', 'O', 'b', 'B'], x ≠ l := by
          rintro l mem rfl
          have letter : ∀ l ∈ ['x', 'X', 'o', 'O', 'b', 'B'], l.isDigit = false := Wire.forall_mem_of_all (by decide)
          rw [letter _ mem] at digit
          cases digit
        simp [radixOf, other]
      rw [none]
      exact decimal
    · exact decimal

theorem editedPort_self (accepted : r.containerPort ≠ 0) : editedPort (registrationFormOf (.of r)) = .ok r.containerPort.toNat := by
  have some_ : r.containerPort.toNat ≠ 0 := fun zero => accepted (UInt16.toNat_inj.mp zero)
  have fits : r.containerPort.toNat < 65536 := r.containerPort.toNat_lt
  have shown : (registrationFormOf (.of r)).port = r.containerPort.toNat.repr := rfl
  have short : r.containerPort.toNat.log2 ≤ 52 := Nat.le_of_lt_succ ((Nat.log2_lt some_).mpr (Nat.lt_trans fits (by decide)))
  rw [editedPort, shown, number_repr some_ short]
  exact if_neg (by omega)

/-- An edit asks for nothing when each field is sent as it was. -/
theorem edit_nothing (e : EngineRepo) (f : RegistrationForm) :
    ((registrationEdit e f confirm).op = none ∧ (registrationEdit e f confirm).problem = none) ↔
      editedUrl f = .ok e.url ∧ editedBranch f = .ok e.branch ∧
        editedPath "Dockerfile path" (trim f.dockerfile) (e.dockerfile.getD "") = .ok none ∧
        editedPath "Health check path" (trim f.health) (e.healthPath.getD "") = .ok none ∧ editedPort f = .ok e.containerPort := by
  have refused (problem : String) (fails : editOp e f confirm = .error problem) :
      ¬ ((registrationEdit e f confirm).op = none ∧ (registrationEdit e f confirm).problem = none) := by
    rw [registrationEdit, fails]
    exact fun both => by cases both.2
  cases url : editedUrl f with
  | error problem =>
    exact iff_of_false (refused problem (by rw [editOp, url]; rfl)) fun all => by cases all.1
  | ok url' =>
    cases branch : editedBranch f with
    | error problem =>
      exact iff_of_false (refused problem (by rw [editOp, url, branch]; rfl)) fun all => by cases all.2.1
    | ok branch' =>
      cases dockerfile : editedPath "Dockerfile path" (trim f.dockerfile) (e.dockerfile.getD "") with
      | error problem =>
        exact iff_of_false (refused problem (by rw [editOp, url, branch, dockerfile]; rfl)) fun all => by cases all.2.2.1
      | ok dockerfile' =>
        cases health : editedPath "Health check path" (trim f.health) (e.healthPath.getD "") with
        | error problem =>
          exact iff_of_false (refused problem (by rw [editOp, url, branch, dockerfile, health]; rfl))
            fun all => by cases all.2.2.2.1
        | ok health' =>
          cases port : editedPort f with
          | error problem =>
            exact iff_of_false (refused problem (by rw [editOp, url, branch, dockerfile, health, port]; rfl))
              fun all => by cases all.2.2.2.2
          | ok port' =>
            have op : editOp e f confirm = .ok ⟨e.name, e.registeredMs, confirm, differing url' e.url, differing branch' e.branch,
                dockerfile', health', differing port' e.containerPort⟩ := by
              rw [editOp, url, branch, dockerfile, health, port]
              rfl
            rw [registrationEdit, op]
            rw [Except.ok.injEq, Except.ok.injEq, Except.ok.injEq, Except.ok.injEq, Except.ok.injEq,
              ← @differing_none _ _ url' e.url,
              ← @differing_none _ _ branch' e.branch, ← @differing_none _ _ port' e.containerPort]
            dsimp only
            split
            · next unchanged => exact iff_of_true ⟨rfl, rfl⟩ (changed_nil.mp unchanged)
            · next changes => exact iff_of_false (fun both => by cases both.1) fun all => changes (changed_nil.mpr all)

/-- **A form that nobody touched** asks for nothing exactly when every text of the registration is as an edit would send it. -/
theorem untouched_iff (valid : r.validate = .ok kind) :
    ((registrationEdit (.of r) (registrationFormOf (.of r)) confirm).op = none ∧
      (registrationEdit (.of r) (registrationFormOf (.of r)) confirm).problem = none) ↔ Settled r := by
  obtain ⟨_, _, valid⟩ := Journal.bind_ok valid
  obtain ⟨kind', url, valid⟩ := Journal.bind_ok valid
  obtain ⟨_, branch, valid⟩ := Journal.bind_ok valid
  have port : r.containerPort ≠ 0 := by
    dsimp only at valid
    split at valid
    · cases valid
    · obtain ⟨_, _, valid⟩ := Journal.bind_ok valid
      obtain ⟨_, _, valid⟩ := Journal.bind_ok valid
      split at valid
      · cases valid
      · split at valid
        · cases valid
        · assumption
  have dockerfile := editedPath_iff "Dockerfile path" r.dockerfile
  have health := editedPath_iff "Health check path" r.healthPath
  rw [edit_nothing]
  constructor
  · rintro ⟨sentUrl, sentBranch, sentFile, sentHealth, -⟩
    exact ⟨(editedUrl_iff url).mp sentUrl, (editedBranch_iff branch).mp sentBranch, dockerfile.mp sentFile, health.mp sentHealth⟩
  · intro settled
    exact ⟨(editedUrl_iff url).mpr settled.url, (editedBranch_iff branch).mpr settled.branch, dockerfile.mpr settled.dockerfile,
      health.mpr settled.healthPath, editedPort_self port⟩

/-- A registration of a repository at the URL. -/
def shop (url : String) : RepoRec where
  name := "shop"
  url := url
  username := none
  cred := .none
  knownHost := none
  webhook := none
  app := ⟨0⟩
  project := none
  environment := none
  branch := "main"
  filters := []
  containerPort := 80
  dockerfile := some "Dockerfile"
  context := none
  target := none
  healthPath := none
  atMs := 0

theorem untouched_iff_folder :
    (registrationEdit (.of (shop "file:///my%20app")) (registrationFormOf (.of (shop "file:///my%20app"))) true).op =
        none ∧
      (registrationEdit (.of (shop "file:///my%20app")) (registrationFormOf (.of (shop "file:///my%20app"))) true).problem =
        none := by
  have read : fileUrlPath "/my%20app" = .ok "/my app" := Journal.ok_of_toOption (by decide +kernel)
  have strip : Wire.stripPrefix "file://" "file:///my%20app" = some "/my%20app" := by decide
  have kept : Kept "file:///my%20app" := by
    rw [Kept, strip]
    exact ⟨by decide +kernel, fun p read' => Except.ok.inj (read.symm.trans read') ▸ ⟨by decide, by decide⟩⟩
  have valid : (shop "file:///my%20app").validate = .ok .file := Journal.ok_of_toOption (by decide +kernel)
  exact (untouched_iff valid).mpr
    ⟨kept, ⟨by decide, by decide⟩, fun path same => Option.some.inj same ▸ ⟨by decide, by decide⟩, nofun⟩

/-- The plus of a recorded URL becomes an escape. -/
theorem untouched_plus : ¬ ∀ (r : RepoRec) (kind : UrlKind) (confirm : Bool), r.validate = .ok kind →
    (registrationEdit (.of r) (registrationFormOf (.of r)) confirm).op = none ∧
      (registrationEdit (.of r) (registrationFormOf (.of r)) confirm).problem = none := by
  intro untouched
  have valid : (shop "file:///a+b").validate = .ok .file := Journal.ok_of_toOption (by decide +kernel)
  have url : validateUrl "file:///a+b" = .ok .file := Journal.ok_of_toOption (by decide +kernel)
  have sent := ((edit_nothing _ _).mp (untouched _ _ true valid)).1
  have kept : Kept "file:///a+b" := (editedUrl_iff (r := shop "file:///a+b") url).mp sent
  have strip : Wire.stripPrefix "file://" "file:///a+b" = some "/a+b" := by decide
  have other : Spelled (utf8 "/a+b") = false := by decide +kernel
  rw [Kept, strip] at kept
  rw [kept.1] at other
  cases other

end

end Harpoon.Forms
