import Harpoon.Laws.JsonGrammar

/-!
# What the JSON reader reads

The reader accepts exactly the texts of its grammar, and with the values it assigns: each of its parts is sound for its relation,
and complete where the text may end.
-/

namespace Harpoon.Docker.JsonText

open Wire (Double)

/-! ## Readers -/

/-- What the reader takes is by the relation. -/
def Sound {α : Type} (p : Parser α) (relation : List Char → α → Prop) : Prop :=
  ∀ {rest a rest'}, p rest = .ok (a, rest') → ∃ tok, rest = tok ++ rest' ∧ relation tok a

/-- What is by the relation is taken, where it may end. -/
def Complete {α : Type} (p : Parser α) (relation : List Char → α → Prop) (ends : List Char → Prop) : Prop :=
  ∀ {tok a rest}, relation tok a → ends rest → p (tok ++ rest) = .ok (a, rest)

section

variable {α β : Type} {s s' rest rest' tok cs ds : List Char} {c : Char} {n : Nat}

theorem bind_ok {x : Parser α} {f : α → Parser β} {r : β × List Char} :
    (x >>= f) s = .ok r ↔ ∃ a s', x s = .ok (a, s') ∧ f a s' = .ok r := by
  show (Except.bind (x s) fun p => f p.1 p.2) = .ok r ↔ _
  cases x s with
  | error e => exact ⟨fun h => (by cases h), fun ⟨_, _, h, _⟩ => (by cases h)⟩
  | ok p => exact ⟨fun h => ⟨p.1, p.2, rfl, h⟩, fun ⟨_, _, h, h'⟩ => (by cases h; exact h')⟩

theorem bind_of_ok {x : Parser α} {f : α → Parser β} {a : α} (ok : x s = .ok (a, s')) : (x >>= f) s = f a s' := by
  show (Except.bind (x s) fun p => f p.1 p.2) = _
  rw [ok]
  rfl

theorem get_bind {f : List Char → Parser β} : ((get : Parser (List Char)) >>= f) s = f s s := rfl

theorem set_bind {f : Unit → Parser β} : ((set cs : Parser Unit) >>= f) s = f () cs := rfl

theorem pure_ok {a b : α} : (pure a : Parser α) s = .ok (b, s') ↔ b = a ∧ s' = s :=
  ⟨fun h => (by cases h; exact ⟨rfl, rfl⟩), fun ⟨h, h'⟩ => (by rw [h, h']; rfl)⟩

theorem err_ok {m : String} {r : α × List Char} : ¬ (err m : Parser α) s = .ok r := fun h => by cases h

/-! ### Blanks and digits -/

theorem takeWhile_all {p : Char → Bool} (all : ∀ c ∈ tok, p c = true) (stops : ∀ c cs, rest = c :: cs → p c = false) :
    (tok ++ rest).takeWhile p = tok ∧ (tok ++ rest).dropWhile p = rest := by
  induction tok with
  | nil =>
    cases rest with
    | nil => exact ⟨rfl, rfl⟩
    | cons c cs =>
      have stop := stops c cs rfl
      exact ⟨List.takeWhile_cons_of_neg (by rw [stop]; exact Bool.false_ne_true),
        List.dropWhile_cons_of_neg (by rw [stop]; exact Bool.false_ne_true)⟩
  | cons c cs ih =>
    have here := all c List.mem_cons_self
    obtain ⟨taken, left⟩ := ih fun d mem => all d (List.mem_cons_of_mem _ mem)
    exact ⟨by rw [List.cons_append, List.takeWhile_cons_of_pos here, taken],
      by rw [List.cons_append, List.dropWhile_cons_of_pos here, left]⟩

/-- What follows does not begin with a blank. -/
def Solid (rest : List Char) : Prop := ∀ c cs, rest = c :: cs → isWs c = false

theorem ws_run : ws s = .ok ((), s.dropWhile isWs) := rfl

theorem ws_sound : Sound ws fun tok _ => Blank tok := by
  rintro rest _ rest' ran
  cases ran
  exact ⟨rest.takeWhile isWs, List.takeWhile_append_dropWhile.symm, fun c mem => List.all_eq_true.mp List.all_takeWhile c mem⟩

theorem ws_past (blank : Blank tok) (solid : Solid rest) : ws (tok ++ rest) = .ok ((), rest) := by
  rw [ws_run, (takeWhile_all blank solid).2]

/-- What follows does not begin with a digit. -/
def Halts (rest : List Char) : Prop := ∀ c cs, rest = c :: cs → c.isDigit = false

theorem digits_run : digits s = .ok (s.takeWhile Char.isDigit, s.dropWhile Char.isDigit) := rfl

theorem someDigits_sound : Sound someDigits fun tok ds => tok = ds ∧ Digits ds := by
  rintro rest ds rest' ran
  obtain ⟨_, _, taken, ran⟩ := bind_ok.mp ran
  cases taken
  split at ran
  next => exact absurd ran err_ok
  next some_ =>
    cases ran
    exact ⟨_, List.takeWhile_append_dropWhile.symm, rfl, some_, fun c mem => List.all_eq_true.mp List.all_takeWhile c mem⟩

theorem someDigits_complete : Complete someDigits (fun tok ds => tok = ds ∧ Digits ds) Halts := by
  rintro tok _ rest ⟨rfl, some_, all⟩ halts
  obtain ⟨taken, left⟩ := takeWhile_all all halts
  rw [someDigits, bind_of_ok digits_run, taken, left, if_neg some_]
  rfl

theorem sign_sound : Sound (sign c) fun tok yes => tok = if yes then [c] else [] := by
  rintro rest yes rest' ran
  rw [sign, get_bind] at ran
  split at ran
  next d cs =>
    split at ran
    next same => cases ran; exact ⟨[c], by rw [same]; rfl, rfl⟩
    next => cases ran; exact ⟨[], rfl, rfl⟩
  next => cases ran; exact ⟨[], rfl, rfl⟩

theorem sign_yes : sign c (c :: rest) = .ok (true, rest) := by
  rw [sign, get_bind]
  dsimp only
  rw [if_pos rfl]
  rfl

theorem sign_no (other : ∀ d cs, rest = d :: cs → d ≠ c) : sign c rest = .ok (false, rest) := by
  rw [sign, get_bind]
  cases rest with
  | nil => rfl
  | cons d cs =>
    dsimp only
    rw [if_neg (other d cs rfl)]
    rfl

/-! ### Numbers -/

/-- What follows ends a number. -/
def Ends (rest : List Char) : Prop :=
  ∀ c cs, rest = c :: cs → c.isDigit = false ∧ c ≠ '.' ∧ c ≠ 'e' ∧ c ≠ 'E'

theorem Ends.halts (ends : Ends rest) : Halts rest := fun c cs same => (ends c cs same).1

theorem fraction_sound : Sound fraction Fraction := by
  rintro rest ds rest' ran
  obtain ⟨yes, s₁, dot, ran⟩ := bind_ok.mp ran
  obtain ⟨tok₁, rfl, is⟩ := sign_sound dot
  cases yes with
  | false =>
    cases ran
    exact ⟨tok₁, rfl, is ▸ .none⟩
  | true =>
    obtain ⟨tok₂, rfl, rfl, digits⟩ := someDigits_sound ran
    exact ⟨'.' :: tok₂, by rw [is]; rfl, .some digits⟩

theorem fraction_complete : Complete fraction Fraction fun rest => Halts rest ∧ ∀ d cs, rest = d :: cs → d ≠ '.' := by
  rintro tok ds rest (_ | digits) ⟨halts, other⟩
  · rw [List.nil_append, fraction, bind_of_ok (sign_no other)]
    rfl
  · rw [List.cons_append, fraction, bind_of_ok sign_yes]
    exact someDigits_complete ⟨rfl, digits⟩ halts

theorem exponent_sound : Sound exponent Exponent := by
  rintro rest e rest' ran
  rw [exponent, get_bind] at ran
  split at ran
  next c cs =>
    split at ran
    next letter =>
      rw [set_bind] at ran
      obtain ⟨minus, s₁, signed, ran⟩ := bind_ok.mp ran
      obtain ⟨tok₁, rfl, is⟩ := sign_sound signed
      cases minus with
      | true =>
        obtain ⟨ds, s₂, read, ran⟩ := bind_ok.mp ran
        obtain ⟨tok₂, rfl, rfl, digits⟩ := someDigits_sound read
        cases ran
        exact ⟨c :: '-' :: tok₂, by rw [is]; rfl, .minus letter digits⟩
      | false =>
        obtain ⟨plus, s₂, signed', ran'⟩ := bind_ok.mp ran
        obtain ⟨tok₂, rfl, is'⟩ := sign_sound signed'
        obtain ⟨ds, s₃, read, done⟩ := bind_ok.mp ran'
        obtain ⟨tok₃, rfl, rfl, digits⟩ := someDigits_sound read
        cases done
        cases plus with
        | true => exact ⟨c :: '+' :: tok₃, by rw [is, is']; rfl, .plus letter digits⟩
        | false => exact ⟨c :: tok₃, by rw [is, is']; rfl, .plain letter digits⟩
    next => cases ran; exact ⟨[], rfl, .none⟩
  next => cases ran; exact ⟨[], rfl, .none⟩

theorem digit_ne (digit : c.isDigit = true) (d : Char) (no : d.isDigit = false) : c ≠ d := by
  rintro rfl
  rw [digit] at no
  cases no

/-- Digits do not begin with another character. -/
theorem Digits.other (digits : Digits ds) (d : Char) (no : d.isDigit = false) : ∀ x xs, ds ++ rest = x :: xs → x ≠ d := by
  intro x xs same
  cases ds with
  | nil => exact absurd rfl digits.1
  | cons y ys =>
    cases same
    exact digit_ne (digits.2 _ List.mem_cons_self) d no

theorem exponent_complete : Complete exponent Exponent Ends := by
  rintro tok e rest (_ | ⟨letter, digits⟩ | ⟨letter, digits⟩ | ⟨letter, digits⟩) ends
  · rw [List.nil_append, exponent, get_bind]
    cases rest with
    | nil => rfl
    | cons c cs =>
      obtain ⟨_, _, e, E⟩ := ends c cs rfl
      dsimp only
      rw [if_neg (not_or.mpr ⟨e, E⟩)]
      rfl
  · rw [List.cons_append, exponent, get_bind]
    dsimp only
    rw [if_pos letter, set_bind, bind_of_ok (sign_no (digits.other '-' (by decide)))]
    rw [if_neg Bool.false_ne_true, bind_of_ok (sign_no (digits.other '+' (by decide)))]
    rw [bind_of_ok (someDigits_complete ⟨rfl, digits⟩ ends.halts)]
    rfl
  · rw [List.cons_append, exponent, get_bind]
    dsimp only
    rw [if_pos letter, set_bind, bind_of_ok (sign_no fun d cs same => by cases same; decide)]
    rw [if_neg Bool.false_ne_true, List.cons_append, bind_of_ok sign_yes]
    rw [bind_of_ok (someDigits_complete ⟨rfl, digits⟩ ends.halts)]
    rfl
  · rw [List.cons_append, exponent, get_bind]
    dsimp only
    rw [if_pos letter, set_bind, List.cons_append, bind_of_ok sign_yes, if_pos rfl]
    rw [bind_of_ok (someDigits_complete ⟨rfl, digits⟩ ends.halts)]
    rfl

theorem number_sound : Sound number fun tok v => ∃ x, v = .num x ∧ Number .lenient tok x := by
  rintro rest v rest' ran
  obtain ⟨negative, s₁, signed, ran₁⟩ := bind_ok.mp ran
  obtain ⟨tok₁, rfl, is⟩ := sign_sound signed
  obtain ⟨int, s₂, whole, ran₂⟩ := bind_ok.mp ran₁
  obtain ⟨tok₂, rfl, rfl, digits⟩ := someDigits_sound whole
  obtain ⟨ds, s₃, point, ran₃⟩ := bind_ok.mp ran₂
  obtain ⟨tok₃, rfl, part⟩ := fraction_sound point
  obtain ⟨e, s₄, ten, ran₄⟩ := bind_ok.mp ran₃
  obtain ⟨tok₄, rfl, power⟩ := exponent_sound ten
  generalize value : Double.ofDecimal negative (valueOf (tok₂ ++ ds)) (e - ds.length) = nearest at ran₄
  cases nearest with
  | none => exact absurd ran₄ err_ok
  | some x =>
    cases ran₄
    refine ⟨tok₁ ++ tok₂ ++ tok₃ ++ tok₄, by simp only [List.append_assoc], x, rfl, ?_⟩
    rw [is]
    exact .mk digits trivial part power value

/-- An exponent, or what follows the number, begins with no digit and no point. -/
theorem Exponent.bound {e : Int} (power : Exponent tok e) (ends : Ends rest) :
    ∀ c cs, tok ++ rest = c :: cs → c.isDigit = false ∧ c ≠ '.' := by
  have letter {c : Char} (h : c = 'e' ∨ c = 'E') : c.isDigit = false ∧ c ≠ '.' := by
    rcases h with rfl | rfl <;> decide
  intro c cs same
  cases power with
  | none => exact ⟨(ends c cs same).1, (ends c cs same).2.1⟩
  | plain h _ | plus h _ | minus h _ => cases same; exact letter h

theorem Fraction.bound {e : Int} {exp : List Char} (part : Fraction tok ds) (power : Exponent exp e) (ends : Ends rest) :
    Halts (tok ++ (exp ++ rest)) := by
  intro c cs same
  cases part with
  | none => exact (power.bound ends c cs same).1
  | some _ => cases same; decide

theorem number_complete : Complete number (fun tok v => ∃ x, v = .num x ∧ Number .lenient tok x) Ends := by
  rintro tok _ rest ⟨x, rfl, @⟨negative, int, part, exp, ds, e, _, digits, -, fraction, power, value⟩⟩ ends
  have signed : sign '-' ((if negative then ['-'] else []) ++ (int ++ (part ++ (exp ++ rest)))) =
      .ok (negative, int ++ (part ++ (exp ++ rest))) := by
    cases negative
    · exact sign_no (digits.other '-' (by decide))
    · exact sign_yes
  have bound := fraction.bound power ends
  simp only [List.append_assoc]
  rw [number, bind_of_ok signed, bind_of_ok (someDigits_complete ⟨rfl, digits⟩ bound)]
  rw [bind_of_ok (fraction_complete fraction ⟨fun c cs same => (power.bound ends c cs same).1,
    fun c cs same => (power.bound ends c cs same).2⟩)]
  rw [bind_of_ok (exponent_complete power ends)]
  have value : Double.ofDecimal negative (valueOf (int ++ ds)) (e - ds.length) = some x := value
  simp only [value]
  rfl

/-! ### Strings -/

theorem hex4_sound : Sound hex4 Rules.lenient.hex := by
  rintro rest n rest' ran
  rw [hex4, get_bind] at ran
  split at ran
  next a b c d cs =>
    generalize value : Wire.parseUnsigned 16 0xFFFFFFFF (String.ofList [a, b, c, d]) = read at ran
    cases read with
    | none => exact absurd ran err_ok
    | some m => cases ran; exact ⟨[a, b, c, d], rfl, rfl, value⟩
  next => exact absurd ran err_ok

theorem hex4_complete : Complete hex4 Rules.lenient.hex fun _ => True := by
  rintro tok n rest ⟨four, value⟩ -
  match tok, four with
  | [a, b, c, d], _ =>
    rw [hex4, get_bind]
    dsimp only [List.cons_append, List.nil_append]
    rw [value]
    rfl

/-- Four hexadecimal digits make no more than sixteen bits. -/
theorem hex_bound (hex : Rules.lenient.hex ds n) : n < 0x10000 := by
  obtain ⟨four, value⟩ := hex
  have bound {cs : List Char} (short : cs.length ≤ 4) (read : Wire.unsigned 16 0xFFFFFFFF cs = some n) : n < 0x10000 := by
    rw [Wire.unsigned] at read
    split at read
    next => cases read
    next =>
      have digits := Wire.readDigits_bound (Option.filter_eq_some_iff.mp read).1
      rw [Nat.zero_add, Nat.one_mul] at digits
      exact Nat.lt_of_lt_of_le digits (Nat.pow_le_pow_right (by decide) short)
  rw [Wire.parseUnsigned, String.toList_ofList] at value
  split at value
  next cs => exact bound (by rw [List.length_cons] at four; omega) value
  next => exact bound (Nat.le_of_eq four) value

theorem charFrom_ok {d : Char} : charFrom n s = .ok (d, s') ↔ n.isValidChar ∧ d = Char.ofNat n ∧ s' = s := by
  rw [charFrom]
  split
  next valid => exact pure_ok.trans ⟨fun h => ⟨valid, h⟩, fun h => h.2⟩
  next invalid => exact ⟨fun h => absurd h err_ok, fun h => absurd h.1 invalid⟩

theorem charFrom_valid (valid : n.isValidChar) : charFrom n s = .ok (Char.ofNat n, s) := by
  rw [charFrom, if_pos valid]
  rfl

theorem isHigh_iff : isHigh n = true ↔ 0xD800 ≤ n ∧ n < 0xDC00 := by
  rw [isHigh, Bool.and_eq_true, decide_eq_true_eq, decide_eq_true_eq]

theorem isLow_iff : isLow n = true ↔ 0xDC00 ≤ n ∧ n < 0xE000 := by
  rw [isLow, Bool.and_eq_true, decide_eq_true_eq, decide_eq_true_eq]

theorem combined_valid {hi lo : Nat} (high : isHigh hi = true) (low : isLow lo = true) : (combined hi lo).isValidChar := by
  have least : 0x10000 ≤ combined hi lo := by
    unfold combined
    omega
  have most : combined hi lo < 0x110000 := by
    have := isHigh_iff.mp high
    have := isLow_iff.mp low
    unfold combined
    omega
  exact .inr ⟨Nat.lt_of_lt_of_le (by decide) least, most⟩

theorem unit_sound : Sound unit fun tok d => Escape .lenient ('u' :: tok) d := by
  rintro rest d rest' ran
  obtain ⟨hi, s₁, first, ran₁⟩ := bind_ok.mp ran
  obtain ⟨tok₁, rfl, hex₁⟩ := hex4_sound first
  split at ran₁
  next high =>
    rw [get_bind] at ran₁
    split at ran₁
    next a b cs =>
      split at ran₁
      next begins =>
        obtain ⟨rfl, rfl⟩ := begins
        rw [set_bind] at ran₁
        obtain ⟨lo, s₂, second, ran₂⟩ := bind_ok.mp ran₁
        obtain ⟨tok₂, rfl, hex₂⟩ := hex4_sound second
        split at ran₂
        next low =>
          have read := charFrom_ok.mp ran₂
          rw [read.2.1, read.2.2]
          exact ⟨tok₁ ++ '\\' :: 'u' :: tok₂, by simp, .pair hex₁ high hex₂ low⟩
        next => exact absurd ran₂ err_ok
      next => exact absurd ran₁ err_ok
    next => exact absurd ran₁ err_ok
  next high =>
    split at ran₁
    next => exact absurd ran₁ err_ok
    next low =>
      obtain ⟨-, rfl, rfl⟩ := charFrom_ok.mp ran₁
      exact ⟨tok₁, rfl, .unit hex₁ (Bool.eq_false_iff.mpr high) (Bool.eq_false_iff.mpr low)⟩

theorem unit_complete {d : Char} (escape : Escape .lenient ('u' :: tok) d) : unit (tok ++ rest) = .ok (d, rest) := by
  cases escape with
  | letter known =>
    have other : ∀ e ∈ escapes, e.1 ≠ 'u' := by decide
    exact absurd rfl (other _ known)
  | unit hex high low =>
    rw [unit, bind_of_ok (hex4_complete hex trivial), if_neg (by rw [high]; exact Bool.false_ne_true),
      if_neg (by rw [low]; exact Bool.false_ne_true)]
    refine charFrom_valid ?_
    rename_i n
    have bound : n < 0x10000 := hex_bound hex
    have high : ¬ (0xD800 ≤ n ∧ n < 0xDC00) := fun h => Bool.eq_false_iff.mp high (isHigh_iff.mpr h)
    have low : ¬ (0xDC00 ≤ n ∧ n < 0xE000) := fun h => Bool.eq_false_iff.mp low (isLow_iff.mpr h)
    show n < 0xD800 ∨ 0xDFFF < n ∧ n < 0x110000
    omega
  | pair first high second low =>
    rename_i hi lo
    have read {rest : List Char} := charFrom_valid (s := rest) (combined_valid high low)
    generalize Char.ofNat (combined hi lo) = d at read
    rw [List.append_assoc, unit, bind_of_ok (hex4_complete first trivial), if_pos high, get_bind]
    dsimp only [List.cons_append]
    rw [if_pos ⟨rfl, rfl⟩, set_bind, bind_of_ok (hex4_complete second trivial), if_pos low]
    exact read
  | lone _ _ taken => exact taken.elim

theorem escape_sound : Sound escape (Escape .lenient) := by
  rintro rest d rest' ran
  rw [escape, get_bind] at ran
  split at ran
  next => exact absurd ran err_ok
  next c cs =>
    rw [set_bind] at ran
    split at ran
    next is =>
      obtain ⟨tok, rfl, escape⟩ := unit_sound ran
      exact ⟨c :: tok, rfl, is ▸ escape⟩
    next =>
      generalize found : escapes.find? (·.1 = c) = known at ran
      cases known with
      | none => exact absurd ran err_ok
      | some e =>
        cases ran
        have same := List.find?_some found
        rw [decide_eq_true_eq] at same
        exact ⟨[c], rfl, .letter (same ▸ List.mem_of_find?_eq_some found)⟩

theorem escape_complete : Complete escape (Escape .lenient) fun _ => True := by
  have unique : ∀ e ∈ escapes, escapes.find? (·.1 = e.1) = some e ∧ e.1 ≠ 'u' := by decide
  have behind {tok rest : List Char} {d : Char} (escape' : Escape .lenient ('u' :: tok) d) :
      escape ('u' :: tok ++ rest) = .ok (d, rest) := by
    rw [List.cons_append, escape, get_bind]
    dsimp only
    rw [set_bind, if_pos rfl]
    exact unit_complete escape'
  rintro tok d rest is -
  cases is with
  | letter known =>
    obtain ⟨found, other⟩ := unique _ known
    rw [List.singleton_append, escape, get_bind]
    dsimp only
    rw [set_bind, if_neg other, found]
    rfl
  | unit hex high low => exact behind (.unit hex high low)
  | pair first high second low => exact behind (.pair first high second low)
  | lone hex surrogate taken => exact behind (.lone hex surrogate taken)

theorem chars_sound : Sound (chars n) fun tok s => ∃ body, tok = body ++ ['"'] ∧ Chars .lenient body s := by
  induction n with
  | zero => exact fun ran => absurd ran err_ok
  | succ n ih =>
    rintro rest s rest' ran
    rw [chars, get_bind] at ran
    split at ran
    next => exact absurd ran err_ok
    next c cs =>
      split at ran
      next quote =>
        cases ran
        exact ⟨[c], rfl, [], by rw [quote]; rfl, .nil⟩
      next quote =>
        split at ran
        next backslash =>
          rw [set_bind] at ran
          obtain ⟨d, s₁, escaped, ran₁⟩ := bind_ok.mp ran
          obtain ⟨tok₁, rfl, escape⟩ := escape_sound escaped
          obtain ⟨t, s₂, more, ran₂⟩ := bind_ok.mp ran₁
          obtain ⟨_, rfl, body, rfl, rest⟩ := ih more
          cases ran₂
          refine ⟨c :: (tok₁ ++ (body ++ ['"'])), by simp, '\\' :: tok₁ ++ body, by simp [backslash], .escape escape rest⟩
        next backslash =>
          split at ran
          next => exact absurd ran err_ok
          next control =>
            rw [set_bind] at ran
            obtain ⟨t, s₂, more, ran₂⟩ := bind_ok.mp ran
            obtain ⟨_, rfl, body, rfl, rest⟩ := ih more
            cases ran₂
            exact ⟨c :: (body ++ ['"']), rfl, c :: body, rfl, .plain quote backslash (Nat.le_of_not_lt control) rest⟩

theorem chars_complete {body s : List Char} (is : Chars .lenient body s) (enough : body.length < n) :
    chars n (body ++ '"' :: rest) = .ok (s, rest) := by
  induction is generalizing n with
  | nil =>
    obtain ⟨n, rfl⟩ : ∃ m, n = m + 1 := ⟨n - 1, by omega⟩
    rw [List.nil_append, chars, get_bind]
    dsimp only
    rw [if_pos rfl]
    rfl
  | plain quote backslash control _ ih =>
    rw [List.length_cons] at enough
    obtain ⟨n, rfl⟩ : ∃ m, n = m + 1 := ⟨n - 1, by omega⟩
    rw [List.cons_append, chars, get_bind]
    dsimp only
    rw [if_neg quote, if_neg backslash, if_neg (Nat.not_lt.mpr control), set_bind, bind_of_ok (ih (by omega))]
    rfl
  | escape escape _ ih =>
    rw [List.cons_append, List.length_cons, List.length_append] at enough
    obtain ⟨n, rfl⟩ : ∃ m, n = m + 1 := ⟨n - 1, by omega⟩
    rw [List.cons_append, List.cons_append, chars, get_bind]
    dsimp only
    rw [if_neg (by decide), if_pos rfl, set_bind, List.append_assoc, bind_of_ok (escape_complete escape trivial),
      bind_of_ok (ih (by omega))]
    rfl

theorem eat_sound : Sound (eat c) fun tok _ => tok = [c] := by
  rintro rest _ rest' ran
  rw [eat, get_bind] at ran
  split at ran
  next d cs =>
    split at ran
    next same => cases ran; exact ⟨[d], rfl, by rw [same]⟩
    next => exact absurd ran err_ok
  next => exact absurd ran err_ok

theorem eat_run : eat c (c :: rest) = .ok ((), rest) := by
  rw [eat, get_bind]
  dsimp only
  rw [if_pos rfl]
  rfl

theorem string_sound : Sound string (Quoted .lenient) := by
  rintro rest s rest' ran
  obtain ⟨_, s₁, eaten, ran₁⟩ := bind_ok.mp ran
  obtain ⟨_, rfl, rfl⟩ := eat_sound eaten
  rw [get_bind] at ran₁
  obtain ⟨t, s₂, read, ran₂⟩ := bind_ok.mp ran₁
  obtain ⟨_, rfl, body, rfl, is⟩ := chars_sound read
  cases ran₂
  exact ⟨'"' :: body ++ ['"'], by simp, .mk is⟩

theorem string_complete : Complete string (Quoted .lenient) fun _ => True := by
  rintro tok s rest ⟨is⟩ -
  rename_i body s
  rw [List.append_assoc, List.cons_append, List.singleton_append, string, bind_of_ok eat_run, get_bind]
  rw [bind_of_ok (chars_complete is (by rw [List.length_append, List.length_cons]; omega))]
  rfl

/-! ### Values -/

/-- A close, or a comma, or a blank, or the end. -/
def Closes (rest : List Char) : Prop :=
  ∀ c cs, rest = c :: cs → isWs c = true ∨ c = ',' ∨ c = ']' ∨ c = '}'

theorem Closes.ends (closes : Closes rest) : Ends rest := by
  intro c cs same
  rcases closes c cs same with blank | rfl | rfl | rfl
  · rw [isWs, Bool.or_eq_true, Bool.or_eq_true, Bool.or_eq_true, decide_eq_true_eq, decide_eq_true_eq, decide_eq_true_eq,
      decide_eq_true_eq] at blank
    rcases blank with ((rfl | rfl) | rfl) | rfl <;> decide
  · decide
  · decide
  · decide

theorem closes_blank (blank : Blank ds) (closes : Closes rest) : Closes (ds ++ rest) := by
  intro c cs same
  cases ds with
  | nil => exact closes c cs same
  | cons d ds => cases same; exact .inl (blank _ List.mem_cons_self)

theorem closes_cons (closer : c = ',' ∨ c = ']' ∨ c = '}') : Closes (c :: cs) := by
  intro d ds same
  cases same
  exact .inr closer

/-- What the relation relates begins with no blank and no closing bracket. -/
def Opens (relation : List Char → α → Prop) : Prop :=
  ∀ tok a, relation tok a → ∃ c cs, tok = c :: cs ∧ isWs c = false ∧ c ≠ ']' ∧ c ≠ '}'

theorem Opens.solid {relation : List Char → α → Prop} (opens : Opens relation) {a : α} (is : relation tok a) :
    Solid (tok ++ rest) := by
  obtain ⟨c, cs, rfl, solid, -, -⟩ := opens tok a is
  intro d ds same
  cases same
  exact solid

theorem solid_cons (solid : isWs c = false) : Solid (c :: cs) := by
  intro d ds same
  cases same
  exact solid

section Lists

variable {item : Parser α} {element : List Char → α → Prop} {close : Char}

theorem series_sound (sound : Sound item element) :
    Sound (series item close n) fun tok vs => ∃ body, tok = body ++ [close] ∧ Series element body vs := by
  induction n with
  | zero => exact fun ran => absurd ran err_ok
  | succ n ih =>
    rintro rest vs rest' ran
    obtain ⟨_, s₁, skipped, ran₁⟩ := bind_ok.mp ran
    obtain ⟨tok₁, rfl, before⟩ := ws_sound skipped
    obtain ⟨v, s₂, read, ran₂⟩ := bind_ok.mp ran₁
    obtain ⟨tok₂, rfl, is⟩ := sound read
    obtain ⟨_, s₃, skipped', ran₃⟩ := bind_ok.mp ran₂
    obtain ⟨tok₃, rfl, after⟩ := ws_sound skipped'
    rw [get_bind] at ran₃
    split at ran₃
    next c cs =>
      split at ran₃
      next comma =>
        rw [set_bind] at ran₃
        obtain ⟨ws, s₄, more, ran₄⟩ := bind_ok.mp ran₃
        obtain ⟨_, rfl, body, rfl, series⟩ := ih more
        cases ran₄
        exact ⟨tok₁ ++ tok₂ ++ tok₃ ++ ',' :: (body ++ [close]), by simp [comma], _, by simp, .more before is after series⟩
      next =>
        split at ran₃
        next closed =>
          cases ran₃
          exact ⟨tok₁ ++ tok₂ ++ tok₃ ++ [close], by simp [closed], _, rfl, .one before is after⟩
        next => exact absurd ran₃ err_ok
    next => exact absurd ran₃ err_ok

theorem series_complete (complete : Complete item element Closes) (opens : Opens element) (closer : close = ']' ∨ close = '}')
    {vs : List α} (is : Series element cs vs) (enough : cs.length < n) :
    series item close n (cs ++ close :: rest) = .ok (vs, rest) := by
  have ends : close ≠ ',' ∧ isWs close = false := by rcases closer with rfl | rfl <;> decide
  induction is generalizing n with
  | one before is after =>
    obtain ⟨n, rfl⟩ : ∃ m, n = m + 1 := ⟨n - 1, by omega⟩
    rw [List.append_assoc, List.append_assoc, series, bind_of_ok (ws_past before (opens.solid is))]
    rw [bind_of_ok (complete is (closes_blank after (closes_cons (.inr closer))))]
    rw [bind_of_ok (ws_past after (solid_cons ends.2)), get_bind]
    dsimp only
    rw [if_neg ends.1, if_pos rfl]
    rfl
  | more before is after _ ih =>
    rw [List.length_append, List.length_cons] at enough
    obtain ⟨n, rfl⟩ : ∃ m, n = m + 1 := ⟨n - 1, by omega⟩
    rw [List.append_assoc, List.append_assoc, List.append_assoc, List.cons_append, series]
    rw [bind_of_ok (ws_past before (opens.solid is))]
    rw [bind_of_ok (complete is (closes_blank after (closes_cons (.inl rfl))))]
    rw [bind_of_ok (ws_past after (solid_cons (by decide))), get_bind]
    dsimp only
    rw [if_pos rfl, set_bind, bind_of_ok (ih (by omega))]
    rfl

theorem bracketed_sound (sound : Sound item element) :
    Sound (bracketed item close) fun tok vs => ∃ body, tok = body ++ [close] ∧ Listed element body vs := by
  rintro rest vs rest' ran
  obtain ⟨_, s₁, skipped, ran₁⟩ := bind_ok.mp ran
  obtain ⟨tok₁, rfl, blank⟩ := ws_sound skipped
  rw [get_bind] at ran₁
  have series {n : Nat} (read : series item close n s₁ = .ok (vs, rest')) :
      ∃ tok, tok₁ ++ s₁ = tok ++ rest' ∧ ∃ body, tok = body ++ [close] ∧ Listed element body vs := by
    obtain ⟨_, rfl, body, rfl, series⟩ := series_sound sound read
    refine ⟨tok₁ ++ (body ++ [close]), by simp, tok₁ ++ body, by simp, .some ?_⟩
    have wider {a b : List Char} (first : Blank a) (second : Blank b) : Blank (a ++ b) := fun c mem =>
      (List.mem_append.mp mem).elim (first c) (second c)
    cases series with
    | one before is after =>
      rw [← List.append_assoc, ← List.append_assoc]
      exact .one (wider blank before) is after
    | more before is after series =>
      rw [← List.append_assoc, ← List.append_assoc, ← List.append_assoc]
      exact .more (wider blank before) is after series
  split at ran₁
  next c cs =>
    split at ran₁
    next closed =>
      cases ran₁
      exact ⟨tok₁ ++ [close], by simp [closed], tok₁, rfl, .none blank⟩
    next => exact series ran₁
  next => exact series ran₁

end Lists

theorem bracketed_complete {item : Parser α} {element : List Char → α → Prop} {close : Char}
    (complete : Complete item element Closes) (opens : Opens element) (closer : close = ']' ∨ close = '}') {vs : List α}
    (is : Listed element cs vs) : bracketed item close (cs ++ close :: rest) = .ok (vs, rest) := by
  have ends : isWs close = false := by rcases closer with rfl | rfl <;> decide
  cases is with
  | none blank =>
    rw [bracketed, bind_of_ok (ws_past blank (solid_cons ends)), get_bind]
    dsimp only
    rw [if_pos rfl]
    rfl
  | some series =>
    -- The blanks before the first element are skipped here already.
    have begins : ∃ a b d ds, cs = a ++ b ∧ Blank a ∧ b = d :: ds ∧ isWs d = false ∧ d ≠ close ∧ Series element b vs := by
      have other {d : Char} (no : d ≠ ']' ∧ d ≠ '}') : d ≠ close := by rcases closer with rfl | rfl <;> simp [no]
      have nothing : Blank [] := fun _ mem => absurd mem List.not_mem_nil
      cases series with
      | @one a tok b v before is after =>
        obtain ⟨d, ds, begins, solid, no⟩ := opens _ _ is
        refine ⟨a, tok ++ b, d, ds ++ b, by simp, before, by rw [begins]; rfl, solid, other no, ?_⟩
        exact (List.nil_append tok) ▸ .one nothing is after
      | @more a tok b rest v vs before is after series =>
        obtain ⟨d, ds, begins, solid, no⟩ := opens _ _ is
        refine ⟨a, tok ++ b ++ ',' :: rest, d, ds ++ b ++ ',' :: rest, by simp, before, by rw [begins]; rfl, solid, other no, ?_⟩
        exact (List.nil_append tok) ▸ .more nothing is after series
    obtain ⟨a, b, d, ds, rfl, blank, rfl, solid, other, series⟩ := begins
    rw [List.append_assoc, List.cons_append, bracketed, bind_of_ok (ws_past blank (solid_cons solid)), get_bind]
    dsimp only
    rw [if_neg other, ← List.cons_append]
    exact series_complete complete opens closer series (by simp)

theorem member_sound {value : Parser Json} {element : List Char → Json → Prop} (sound : Sound value element) :
    Sound (member value) (Member .lenient element) := by
  rintro rest m rest' ran
  rw [member, get_bind] at ran
  split at ran
  next cs =>
    obtain ⟨k, s₁, key, ran₁⟩ := bind_ok.mp ran
    obtain ⟨tok₁, begins, quoted⟩ := string_sound key
    obtain ⟨_, s₂, skipped, ran₂⟩ := bind_ok.mp ran₁
    obtain ⟨tok₂, rfl, before⟩ := ws_sound skipped
    obtain ⟨_, s₃, eaten, ran₃⟩ := bind_ok.mp ran₂
    obtain ⟨_, rfl, rfl⟩ := eat_sound eaten
    obtain ⟨_, s₄, skipped', ran₄⟩ := bind_ok.mp ran₃
    obtain ⟨tok₃, rfl, after⟩ := ws_sound skipped'
    obtain ⟨v, s₅, read, ran₅⟩ := bind_ok.mp ran₄
    obtain ⟨tok₄, rfl, is⟩ := sound read
    cases ran₅
    exact ⟨tok₁ ++ tok₂ ++ ':' :: tok₃ ++ tok₄, by rw [begins]; simp, .mk quoted before after is⟩
  next => exact absurd ran err_ok

theorem member_complete {value : Parser Json} {element : List Char → Json → Prop} (complete : Complete value element Closes)
    (opens : Opens element) : Complete (member value) (Member .lenient element) Closes := by
  rintro _ _ rest ⟨@⟨body, s, chars⟩, before, after, is⟩ closes
  rename_i a b cs v
  have begins : member value ('"' :: (body ++ ['"'] ++ (a ++ ':' :: (b ++ (cs ++ rest))))) = .ok ((String.ofList s, v), rest) := by
    rw [member, get_bind]
    show (string >>= fun k => ws >>= fun _ => eat ':' >>= fun _ => ws >>= fun _ => value >>= fun v => pure (k, v)) _ = _
    rw [← List.cons_append, ← List.cons_append, bind_of_ok (string_complete (.mk chars) trivial)]
    rw [bind_of_ok (ws_past before (solid_cons (by decide))), bind_of_ok eat_run]
    rw [bind_of_ok (ws_past after (opens.solid is)), bind_of_ok (complete is closes)]
    rfl
  rw [← begins]
  simp

theorem lit_sound {word : List Char} {v : Json} : Sound (lit word v) fun tok w => tok = word ∧ w = v := by
  rintro rest w rest' ran
  rw [lit, get_bind] at ran
  split at ran
  next is =>
    cases ran
    obtain ⟨more, rfl⟩ := List.isPrefixOf_iff_prefix.mp is
    exact ⟨word, by simp, rfl, rfl⟩
  next => exact absurd ran err_ok

theorem lit_run {word : List Char} {v : Json} : lit word v (word ++ rest) = .ok (v, rest) := by
  rw [lit, get_bind, if_pos (List.isPrefixOf_iff_prefix.mpr (List.prefix_append ..)), set_bind, List.drop_left]
  rfl

theorem value_sound (levels : Nat) : Sound (value levels) (Value .lenient levels) := by
  induction levels with
  | zero => exact fun ran => absurd ran err_ok
  | succ levels ih =>
    rintro rest v rest' ran
    rw [value, get_bind] at ran
    have word {w : List Char} {x : Json} (is : Shape .lenient (Value .lenient levels) w x) (ran : lit w x rest = .ok (v, rest')) :
        ∃ tok, rest = tok ++ rest' ∧ Value .lenient (levels + 1) tok v := by
      obtain ⟨_, begins, rfl, rfl⟩ := lit_sound ran
      exact ⟨_, begins, is⟩
    cases rest with
    | nil => exact absurd ran err_ok
    | cons c cs =>
      dsimp only at ran
      split at ran
      next => exact word .null ran
      split at ran
      next => exact word .true ran
      split at ran
      next => exact word .false ran
      split at ran
      next =>
        obtain ⟨s, s₁, read, done⟩ := bind_ok.mp ran
        obtain ⟨tok, begins, quoted⟩ := string_sound read
        cases done
        exact ⟨tok, begins, .str quoted⟩
      split at ran
      next opened =>
        rw [set_bind] at ran
        obtain ⟨vs, s₁, read, done⟩ := bind_ok.mp ran
        obtain ⟨_, rfl, body, rfl, items⟩ := bracketed_sound ih read
        cases done
        exact ⟨'[' :: body ++ [']'], by simp [opened], .arr items⟩
      split at ran
      next opened =>
        rw [set_bind] at ran
        obtain ⟨ms, s₁, read, done⟩ := bind_ok.mp ran
        obtain ⟨_, rfl, body, rfl, members⟩ := bracketed_sound (member_sound ih) read
        cases done
        exact ⟨'{' :: body ++ ['}'], by simp [opened], .obj members⟩
      split at ran
      next =>
        obtain ⟨tok, begins, x, rfl, number⟩ := number_sound ran
        exact ⟨tok, begins, .num number⟩
      next => exact absurd ran err_ok

/-- A number begins with a sign or a digit. -/
theorem Number.begins {x : Double} (number : Number .lenient tok x) :
    ∃ c cs, tok = c :: cs ∧ (c = '-' ∨ c.isDigit = true) := by
  obtain ⟨digits, -, -, -, -⟩ := number
  rename_i negative int _ _ _ _
  cases negative with
  | true => exact ⟨'-', _, rfl, .inl rfl⟩
  | false =>
    cases int with
    | nil => exact absurd rfl digits.1
    | cons d ds => exact ⟨d, _, rfl, .inr (digits.2 d List.mem_cons_self)⟩

theorem number_start (start : c = '-' ∨ c.isDigit = true) :
    isWs c = false ∧ c ≠ ']' ∧ c ≠ '}' ∧ c ≠ 'n' ∧ c ≠ 't' ∧ c ≠ 'f' ∧ c ≠ '"' ∧ c ≠ '[' ∧ c ≠ '{' := by
  rcases start with rfl | digit
  · decide
  · have other := digit_ne digit
    have blank : isWs c = false := by
      rw [isWs, decide_eq_false (other ' ' (by decide)), decide_eq_false (other '\t' (by decide)),
        decide_eq_false (other '\n' (by decide)), decide_eq_false (other '\r' (by decide))]
      rfl
    exact ⟨blank, other _ (by decide), other _ (by decide), other _ (by decide), other _ (by decide), other _ (by decide),
      other _ (by decide), other _ (by decide), other _ (by decide)⟩

theorem value_opens (levels : Nat) : Opens (Value .lenient levels) := by
  intro tok v is
  cases levels with
  | zero => exact is.elim
  | succ levels =>
    cases is with
    | null | true | false => exact ⟨_, _, rfl, by decide⟩
    | str quoted =>
      obtain ⟨chars⟩ := quoted
      exact ⟨_, _, rfl, by decide⟩
    | arr items => exact ⟨_, _, rfl, by decide⟩
    | obj members => exact ⟨_, _, rfl, by decide⟩
    | num number =>
      obtain ⟨c, cs, rfl, start⟩ := number.begins
      obtain ⟨solid, close, close', -⟩ := number_start start
      exact ⟨c, cs, rfl, solid, close, close'⟩

theorem member_opens (element : List Char → Json → Prop) : Opens (Member .lenient element) := by
  rintro _ _ ⟨⟨chars⟩, before, after, is⟩
  exact ⟨_, _, rfl, by decide⟩

theorem value_complete (levels : Nat) : Complete (value levels) (Value .lenient levels) Closes := by
  induction levels with
  | zero => exact fun is _ => is.elim
  | succ levels ih =>
    rintro tok v rest is closes
    cases is with
    | null | true | false =>
      rw [value, get_bind]
      exact lit_run
    | str quoted =>
      rename_i s
      have read : string (tok ++ rest) = .ok (s, rest) := string_complete quoted trivial
      obtain ⟨chars⟩ := quoted
      rw [value, get_bind]
      show (string >>= fun s => pure (Json.str s)) _ = _
      rw [bind_of_ok read]
      rfl
    | arr items =>
      rename_i body vs
      have read : bracketed (value levels) ']' (body ++ ']' :: rest) = .ok (vs, rest) :=
        bracketed_complete ih (value_opens levels) (.inl rfl) items
      rw [List.append_assoc, List.cons_append, List.singleton_append, value, get_bind]
      show (bracketed (value levels) ']' >>= fun vs => pure (Json.arr vs)) _ = _
      rw [bind_of_ok read]
      rfl
    | obj members =>
      rename_i body ms
      have read : bracketed (member (value levels)) '}' (body ++ '}' :: rest) = .ok (ms, rest) :=
        bracketed_complete (member_complete ih (value_opens levels)) (member_opens _) (.inr rfl) members
      rw [List.append_assoc, List.cons_append, List.singleton_append, value, get_bind]
      show (bracketed (member (value levels)) '}' >>= fun ms => pure (Json.obj ms)) _ = _
      rw [bind_of_ok read]
      rfl
    | num number =>
      have read : JsonText.number (tok ++ rest) = .ok (_, rest) := number_complete ⟨_, rfl, number⟩ closes.ends
      obtain ⟨c, cs, rfl, start⟩ := number.begins
      obtain ⟨-, -, -, n, t, f, q, a, o⟩ := number_start start
      rw [List.cons_append] at read ⊢
      rw [value, get_bind]
      dsimp only
      rw [if_neg n, if_neg t, if_neg f, if_neg q, if_neg a, if_neg o, if_pos start]
      exact read

/-- The reader reads exactly the texts of its grammar. -/
theorem text_iff {v : Json} : (∃ rest, text s = .ok (v, rest)) ↔ Text .lenient (maxDepth + 1) s v := by
  constructor
  · rintro ⟨rest', ran⟩
    obtain ⟨_, s₁, skipped, ran₁⟩ := bind_ok.mp ran
    obtain ⟨tok₁, rfl, before⟩ := ws_sound skipped
    obtain ⟨w, s₂, read, ran₂⟩ := bind_ok.mp ran₁
    obtain ⟨tok₂, rfl, is⟩ := value_sound _ read
    obtain ⟨_, s₃, skipped', ran₃⟩ := bind_ok.mp ran₂
    obtain ⟨tok₃, rfl, after⟩ := ws_sound skipped'
    rw [get_bind] at ran₃
    split at ran₃
    next done =>
      cases ran₃
      exact ⟨tok₁, tok₂, tok₃, by rw [done]; simp, before, is, after⟩
    next => exact absurd ran₃ err_ok
  · rintro ⟨a, tok, b, rfl, before, is, after⟩
    have stop : Solid [] := fun c cs same => by cases same
    have closes : Closes b := List.append_nil b ▸ closes_blank after (fun c cs same => by cases same)
    have past : ws b = .ok ((), []) := List.append_nil b ▸ ws_past after stop
    refine ⟨[], ?_⟩
    rw [List.append_assoc, text, bind_of_ok (ws_past before ((value_opens _).solid is))]
    rw [bind_of_ok (value_complete _ is closes), bind_of_ok past, get_bind, if_pos rfl]
    rfl

end

/-! ## Texts -/

section

variable {s : String} {v : Json}

theorem parse_iff : Json.parse s = .ok v ↔ Text .lenient (maxDepth + 1) s.toList v := by
  rw [← text_iff, Json.parse]
  split
  next w rest ran => rw [ran]; exact ⟨fun h => ⟨rest, by cases h; rfl⟩, fun ⟨_, h⟩ => (by cases h; rfl)⟩
  next ran => rw [ran]; exact ⟨fun h => (by cases h), fun ⟨_, h⟩ => (by cases h)⟩

/-- A text of RFC 8259 with paired surrogates and finite numbers is read with the value of the grammar, where it is not nested too
deep; and what is read at all is such a text with that value, but for zeros in front of an integer part and signs in an escape. -/
theorem parse_reads (s : String) (v : Json) :
    (Text .strict (maxDepth + 1) s.toList v → Json.parse s = .ok v) ∧
      (Json.parse s = .ok v → Text .lenient (maxDepth + 1) s.toList v) :=
  ⟨fun text => parse_iff.mpr (text.mono strict_lenient), parse_iff.mp⟩

/-- A surrogate that stands alone is refused, though the grammar has it. -/
theorem lone_refused : ¬ ∀ s, (∃ v, Json.parse s = .ok v) ↔ ∃ v, Text .rfc8259 (maxDepth + 1) s.toList v := by
  intro exact
  have hex : Hex4 ['d', '8', '0', '0'] 0xD800 := ⟨rfl, by decide⟩
  have escape : Escape .rfc8259 ['u', 'd', '8', '0', '0'] 'x' := .lone hex (by decide) trivial
  have quoted := Quoted.mk (Chars.escape escape .nil)
  have blank : Blank [] := fun _ mem => absurd mem List.not_mem_nil
  have spoken : Text .rfc8259 (maxDepth + 1) ['"', '\\', 'u', 'd', '8', '0', '0', '"'] (.str (String.ofList ['x'])) :=
    ⟨[], _, [], rfl, blank, Shape.str quoted, blank⟩
  have refused : (text ['"', '\\', 'u', 'd', '8', '0', '0', '"']).toOption.isSome = false := by rfl
  generalize ['"', '\\', 'u', 'd', '8', '0', '0', '"'] = cs at spoken refused
  obtain ⟨v, read⟩ := (exact (String.ofList cs)).mpr ⟨_, by rw [String.toList_ofList]; exact spoken⟩
  obtain ⟨rest, ran⟩ := text_iff.mpr (parse_iff.mp read)
  rw [String.toList_ofList] at ran
  rw [ran] at refused
  cases refused

end

end Harpoon.Docker.JsonText
