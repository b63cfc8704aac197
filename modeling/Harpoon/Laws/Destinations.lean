import Harpoon.Laws.Urls

/-!
# The destination of a URL

Where a URL sends its requests by the generic syntax, or by the syntax of `user@host:path`, against the destination that
the engine compares. The engine names a destination for plain texts only: what stands before the first `/` (before the
first `:` in `user@host:path`) has to be `[user@]host[:port]` with nothing else in it, and there is no `\` anywhere. What
it names is where the standard parse goes.

Of an address in brackets it is not examined whether it is one.
-/

namespace Harpoon.Git

open Deploy.Envvars (isControl)
open Wire

/-! ## The standard parse -/

/-- Where a credential is sent. -/
structure Endpoint where
  transport : Transport
  /-- In lower case. -/
  host : String
  port : Nat
  deriving DecidableEq, Repr

def Destination.endpoint (d : Destination) : Endpoint := ⟨d.transport, d.host, d.port.toNat⟩

def transportOf (scheme : String) : Option Transport :=
  match lowered scheme with
  | "https" => some .https
  | "http" => some .http
  | "ssh" => some .ssh
  | _ => none

/-- What stands before and after the first `:` that is not in brackets. -/
def scpSplit (inside : Bool) : List Char → Option (List Char × List Char)
  | [] => none
  | c :: cs =>
    if c = ':' && !inside then some ([], cs)
    else (scpSplit (c = '[' || (inside && c ≠ ']')) cs).map fun s => (c :: s.1, s.2)

/-- The endpoint of `scheme://[user@]host[:port]…` or of `[user@]host:path`. -/
def standardEndpoint (url : String) : Option Endpoint :=
  match Uri.hierarchical url with
  | some (scheme, rest) =>
    (transportOf scheme).bind fun transport =>
      (Uri.hostAndPort (Uri.hostport (Uri.authority rest))).bind fun h =>
        (Uri.effectivePort transport.defaultPort.toNat h.2).map fun port => ⟨transport, lowered h.1, port⟩
  | none =>
    (scpSplit false url.toList).bind fun s =>
      if s.1.contains '/' || s.2.isEmpty then none
      else some ⟨.ssh, lowered (Uri.hostport (String.ofList s.1)), 22⟩

/-! ## Plain texts -/

structure PlainUser (u : String) : Prop where
  filled : u ≠ ""
  chars : ∀ c ∈ u.toList, c.isAlphanum = true ∨ c ∈ ['.', '_', '~', '-']

structure Label (l : String) : Prop where
  least : 1 ≤ l.utf8ByteSize
  most : l.utf8ByteSize ≤ 63
  first : startsWith '-' l = false
  last : endsWith '-' l = false
  chars : ∀ c ∈ l.toList, c.isAlphanum = true ∨ c = '-'

/-- Labels with dots between them: a name, or a dotted address. -/
structure DnsName (h : String) : Prop where
  size : h.utf8ByteSize ≤ 253
  labels : ∀ l ∈ fields '.' h, Label l

/-- Hexadecimal digits, `:` and `.` in brackets, with at least one `:`. -/
def Bracketed (h : String) : Prop :=
  ∃ t, h = "[" ++ t ++ "]" ∧ ¬ Free ':' t ∧ ∀ c ∈ t.toList, hexDigit c = true ∨ c = ':' ∨ c = '.'

structure PlainPort (p : String) : Prop where
  filled : p ≠ ""
  size : p.utf8ByteSize ≤ 5
  digits : Uri.isPort p = true
  range : ∃ n, readDigits 10 0 p.toList = some n ∧ 1 ≤ n ∧ n ≤ 65535

/-- A port, with the `:` in front of it. -/
def portText : Option String → String
  | none => ""
  | some p => String.singleton ':' ++ p

def UserPart (user : String) : Prop := user = "" ∨ ∃ u, user = u ++ String.singleton '@' ∧ PlainUser u

def PlainHost (host : String) : Prop := DnsName host ∨ Bracketed host

/-- `[user@]host[:port]`, and nothing else. -/
def PlainAuthority (a : String) : Prop :=
  ∃ user host port, a = user ++ (host ++ portText port) ∧ UserPart user ∧ PlainHost host ∧ ∀ p ∈ port, PlainPort p

/-- The URL has no `\`, and a plain authority before the first `/`, or before the first `:` in `user@host:path`. -/
def PlainDestination (url : String) : Prop :=
  Free '\\' url ∧
    ((∃ scheme rest, scheme ∈ ["https", "http", "ssh"] ∧ url = scheme ++ "://" ++ rest ∧
        PlainAuthority (firstPart '/' rest)) ∨
      (containsText "://" url = false ∧ ∃ left path, splitOnce ':' url = some (left, path) ∧ Free '/' left ∧
        path ≠ "" ∧ PlainAuthority left))

variable {url a p u h l t host user left path rest scheme : String} {port : Option String} {c : Char} {n d : UInt16}
  {kind : UrlKind} {transport : Transport}

/-! ## Characters of plain texts -/

theorem userOk_iff : userOk u = true ↔ PlainUser u := by
  have chars : (u.toList.all fun c => c.isAlphanum || c = '.' || c = '_' || c = '~' || c = '-') = true ↔
      ∀ c ∈ u.toList, c.isAlphanum = true ∨ c ∈ ['.', '_', '~', '-'] := by
    simp [List.all_eq_true, or_assoc]
  rw [userOk, Bool.and_eq_true, chars, Bool.not_eq_true', Bool.eq_false_iff, ne_eq, String.isEmpty_iff]
  exact ⟨fun ⟨filled, chars⟩ => ⟨filled, chars⟩, fun ⟨filled, chars⟩ => ⟨filled, chars⟩⟩

theorem PlainUser.free (plain : PlainUser u) (alphanum : c.isAlphanum = false) (other : c ∉ ['.', '_', '~', '-']) :
    Free c u := by
  intro mem
  rcases plain.chars c mem with yes | yes
  · cases alphanum.symm.trans yes
  · exact other yes

theorem hostOk_iff : hostOk h = true ↔ DnsName h := by
  have label : ∀ l : String, (1 ≤ l.utf8ByteSize && l.utf8ByteSize ≤ 63 && !startsWith '-' l && !endsWith '-' l &&
      l.toList.all fun c => c.isAlphanum || c = '-') = true ↔ Label l := by
    intro l
    simp only [Bool.and_eq_true, decide_eq_true_eq, Bool.not_eq_true', List.all_eq_true, Bool.or_eq_true]
    exact ⟨fun ⟨⟨⟨⟨least, most⟩, first⟩, last⟩, chars⟩ => ⟨least, most, first, last, chars⟩,
      fun ⟨least, most, first, last, chars⟩ => ⟨⟨⟨⟨least, most⟩, first⟩, last⟩, chars⟩⟩
  rw [hostOk, Bool.and_eq_true, decide_eq_true_eq, List.all_eq_true]
  constructor
  · rintro ⟨size, all⟩
    exact ⟨size, fun l mem => (label l).mp (all l mem)⟩
  · rintro ⟨size, labels⟩
    exact ⟨size, fun l mem => (label l).mpr (labels l mem)⟩

theorem DnsName.chars (name : DnsName h) : ∀ c ∈ h.toList, c.isAlphanum = true ∨ c = '-' ∨ c = '.' := by
  intro c mem
  rw [← joined_fields '.' h] at mem
  rcases mem_joined mem with rfl | ⟨l, part, inside⟩
  · exact .inr (.inr rfl)
  · rcases (name.labels l part).chars c inside with alphanum | dash
    · exact .inl alphanum
    · exact .inr (.inl dash)

theorem DnsName.free (name : DnsName h) (alphanum : c.isAlphanum = false) (other : c ∉ ['-', '.']) : Free c h := by
  intro mem
  rcases name.chars c mem with yes | rfl | rfl
  · cases alphanum.symm.trans yes
  · exact other (by decide)
  · exact other (by decide)

/-- A name begins with a letter or a digit. -/
theorem DnsName.named (name : DnsName h) : Uri.Named h := by
  have first : ∃ l ls, fields '.' h = l :: ls := List.exists_cons_of_ne_nil fields_ne_nil
  obtain ⟨l, ls, parts⟩ := first
  have label := name.labels l (parts ▸ List.mem_cons_self)
  cases chars : h.toList with
  | nil =>
    rw [fields, chars, List.splitOn_nil] at parts
    cases parts
    exact absurd label.least (by decide)
  | cons c cs =>
    refine ⟨c, cs, chars, ?_⟩
    rintro rfl
    exact name.free (c := '[') (by decide) (by decide) (chars ▸ List.mem_cons_self)

theorem Bracketed.inner_free {t : String} (chars : ∀ c ∈ t.toList, hexDigit c = true ∨ c = ':' ∨ c = '.')
    (digit : hexDigit c = false) (other : c ∉ [':', '.']) : Free c t := by
  intro mem
  rcases chars c mem with yes | rfl | rfl
  · cases digit.symm.trans yes
  · exact other (by decide)
  · exact other (by decide)

/-! ## Ports -/

theorem parseUnsigned_digits {bound : Nat} (filled : p ≠ "") (digits : Uri.isPort p = true) :
    parseUnsigned 10 bound p = (readDigits 10 0 p.toList).filter (· ≤ bound) := by
  have some : p.toList ≠ [] := fun empty => filled (String.toList_eq_nil_iff.mp empty)
  have plain : parseUnsigned 10 bound p = unsigned 10 bound p.toList := by
    unfold parseUnsigned
    split
    next cs sign =>
      have first := List.all_eq_true.mp digits '+' (sign ▸ List.mem_cons_self)
      cases first
    next => rfl
  rw [plain, unsigned, if_neg some]

/-- The port that the engine reads is the one that is used. -/
theorem portOf_iff : portOf d port = some n ↔
    (∀ p ∈ port, PlainPort p) ∧ Uri.effectivePort d.toNat port = some n.toNat := by
  cases port with
  | none =>
    rw [portOf, Uri.effectivePort, Option.some.injEq, Option.some.injEq, UInt16.toNat_inj]
    exact ⟨fun same => ⟨fun p given => (by cases given), same⟩, fun both => both.2⟩
  | some p =>
    rw [portOf, Uri.effectivePort]
    by_cases filled : p = ""
    · subst filled
      refine iff_of_false (fun none => by cases none) fun both => ?_
      exact (both.1 "" rfl).filled rfl
    · have some : p.isEmpty = false := Bool.eq_false_iff.mpr fun empty => filled (String.isEmpty_iff.mp empty)
      rw [some]
      simp only [Bool.not_false, Bool.true_and, Bool.and_eq_true, decide_eq_true_eq, Bool.false_eq_true, if_false]
      by_cases plain : p.utf8ByteSize ≤ 5 ∧ p.toList.all Char.isDigit = true
      · rw [if_pos plain, parseUnsigned_digits filled plain.2]
        cases value : readDigits 10 0 p.toList with
        | none => exact iff_of_false (fun none => by cases none) fun both => by cases both.2
        | some m =>
          by_cases fits : m ≤ 65535
          · have size : m < 65536 := Nat.lt_succ_of_le fits
            have back : (UInt16.ofNat m).toNat = m := by rw [UInt16.toNat_ofNat', Nat.mod_eq_of_lt size]
            rw [Option.filter_some, if_pos (decide_eq_true fits), Option.map_some, Option.filter_some]
            by_cases zero : UInt16.ofNat m = 0
            · have none : m = 0 := by
                rw [← back, zero]
                rfl
              rw [if_neg (by simpa using zero)]
              refine iff_of_false (fun none => by cases none) fun both => ?_
              obtain ⟨_, _, _, k, read, least, _⟩ := both.1 p rfl
              cases value.symm.trans read
              omega
            · rw [if_pos (by simpa using zero), Option.some.injEq, Option.some.injEq]
              have least : 1 ≤ m := by
                refine Nat.one_le_iff_ne_zero.mpr ?_
                rintro rfl
                exact zero rfl
              constructor
              · rintro rfl
                refine ⟨fun q same => ?_, back.symm⟩
                cases same
                exact ⟨filled, plain.1, plain.2, m, value, least, fits⟩
              · rintro ⟨_, same⟩
                rw [same, UInt16.ofNat_toNat]
          · rw [Option.filter_some, if_neg (by simpa using fits)]
            refine iff_of_false (fun none => by cases none) fun both => ?_
            obtain ⟨_, _, _, k, read, _, most⟩ := both.1 p rfl
            cases value.symm.trans read
            exact fits most
      · rw [if_neg plain]
        refine iff_of_false (fun none => by cases none) fun both => ?_
        have port := both.1 p rfl
        exact plain ⟨port.size, port.digits⟩

/-! ## Hosts -/

theorem toLower_bracket : lowered "[" = "[" ∧ lowered "]" = "]" := by decide

theorem lowered_append : lowered (h ++ t) = lowered h ++ lowered t := by
  simp [lowered, String.ofList_append]

theorem stripPrefix_portText : stripPrefix ":" (portText port) = port := by
  cases port with
  | none => rfl
  | some p => exact stripPrefix_append

theorem portText_ends : (!(portText port).isEmpty && !startsWith ':' (portText port)) = false := by
  cases port with
  | none => rfl
  | some p =>
    have begins : startsWith ':' (portText (some p)) = true := by simp [startsWith, portText]
    rw [begins, Bool.not_true, Bool.and_false]

theorem portText_stripPrefix (ends : (!t.isEmpty && !startsWith ':' t) = false) : portText (stripPrefix ":" t) = t := by
  cases chars : t.toList with
  | nil =>
    obtain rfl := String.toList_eq_nil_iff.mp chars
    rfl
  | cons c cs =>
    have filled : t.isEmpty = false := by
      rw [Bool.eq_false_iff]
      intro empty
      rw [String.isEmpty_iff.mp empty] at chars
      cases chars
    rw [filled, Bool.not_false, Bool.true_and, Bool.not_eq_false', startsWith, chars, decide_eq_true_eq,
      List.head?_cons, Option.some.injEq] at ends
    have whole : t = ":" ++ String.ofList cs := by
      rw [← String.toList_inj, chars, ends]
      simp
    rw [whole, stripPrefix_append]
    rfl

/-- The host that the engine reads, in lower case, and the port behind it. -/
theorem hostAndPort_iff : hostAndPort t = some (h, port) ↔
    ∃ host, t = host ++ portText port ∧ PlainHost host ∧ h = lowered host := by
  constructor
  · intro read
    unfold hostAndPort at read
    cases strip : stripPrefix "[" t with
    | some rest =>
      rw [strip] at read
      dsimp only at read
      cases close : splitOnce ']' rest with
      | none =>
        rw [close] at read
        cases read
      | some q =>
        obtain ⟨inner, after⟩ := q
        rw [close, Option.bind_eq_bind, Option.bind_some] at read
        dsimp only at read
        by_cases bad : (!after.isEmpty && !startsWith ':' after) = true
        · rw [if_pos bad] at read
          cases read
        · rw [if_neg bad] at read
          split at read
          next address =>
            obtain ⟨colon, chars⟩ := Bool.and_eq_true _ _ ▸ address
            cases read
            obtain rfl := eq_of_stripPrefix strip
            obtain ⟨rfl, _⟩ := splitOnce_iff.mp close
            refine ⟨"[" ++ inner ++ "]", ?_, .inr ⟨inner, rfl, containsChar_iff.mp colon, ?_⟩, ?_⟩
            · have close : "]" = String.singleton ']' := rfl
              rw [portText_stripPrefix (Bool.eq_false_iff.mpr bad), close, String.append_assoc, String.append_assoc]
            · intro c mem
              have one := List.all_eq_true.mp chars c mem
              simpa [or_assoc] using one
            · rw [lowered_append, lowered_append, toLower_bracket.1, toLower_bracket.2]
              rfl
          · cases read
    | none =>
      rw [strip] at read
      dsimp only at read
      cases colon : splitOnce ':' t with
      | none =>
        rw [colon] at read
        dsimp only at read
        split at read
        next ok =>
          cases read
          exact ⟨t, (String.append_empty).symm, .inl (hostOk_iff.mp ok), rfl⟩
        · cases read
      | some q =>
        obtain ⟨host, p⟩ := q
        rw [colon] at read
        dsimp only at read
        split at read
        next ok =>
          cases read
          exact ⟨host, (splitOnce_iff.mp colon).1, .inl (hostOk_iff.mp ok), rfl⟩
        · cases read
  · rintro ⟨host, rfl, plain, rfl⟩
    rcases plain with name | ⟨inner, rfl, colon, chars⟩
    · have strip : stripPrefix "[" (host ++ portText port) = none := name.named.append.stripPrefix
      have free : Free ':' host := name.free (by decide) (by decide)
      unfold hostAndPort
      rw [strip]
      dsimp only
      cases port with
      | none =>
        rw [portText, String.append_empty, splitOnce_none free]
        exact if_pos (hostOk_iff.mpr name)
      | some p =>
        rw [portText, splitOnce_append free]
        exact if_pos (hostOk_iff.mpr name)
    · have free : Free ']' inner := Bracketed.inner_free chars (by decide) (by decide)
      have parts : "[" ++ inner ++ "]" ++ portText port = "[" ++ (inner ++ (String.singleton ']' ++ portText port)) := by
        have close : "]" = String.singleton ']' := rfl
        rw [close, String.append_assoc, String.append_assoc]
      have address : (containsChar ':' inner && inner.toList.all fun c => hexDigit c || c = ':' || c = '.') = true := by
        rw [Bool.and_eq_true, List.all_eq_true]
        exact ⟨containsChar_iff.mpr colon, fun c mem => by simpa [or_assoc] using chars c mem⟩
      unfold hostAndPort
      rw [parts, stripPrefix_append]
      dsimp only
      rw [splitOnce_append free, Option.bind_eq_bind, Option.bind_some]
      dsimp only
      rw [portText_ends, if_neg Bool.false_ne_true, if_pos address, stripPrefix_portText, lowered_append, lowered_append,
        toLower_bracket.1, toLower_bracket.2]
      rfl

/-! ## Authorities -/

theorem PlainHost.free (plain : PlainHost host) (alphanum : c.isAlphanum = false) (digit : hexDigit c = false)
    (other : c ∉ ['-', '.', ':', '[', ']']) : Free c host := by
  simp only [List.mem_cons, List.not_mem_nil, or_false, not_or] at other
  obtain ⟨dash, dot, colon, opens, closes⟩ := other
  rcases plain with name | ⟨inner, rfl, _, chars⟩
  · exact name.free alphanum (by simp [dash, dot])
  · have free : Free c inner := Bracketed.inner_free chars digit (by simp [colon, dot])
    intro mem
    simp only [String.toList_append, List.mem_append] at mem
    rcases mem with (mem | mem) | mem
    · exact opens (List.mem_singleton.mp mem)
    · exact free mem
    · exact closes (List.mem_singleton.mp mem)

theorem PlainPort.free (plain : PlainPort p) (other : c.isDigit = false) : Free c p := by
  intro mem
  cases other.symm.trans (List.all_eq_true.mp plain.digits c mem)

theorem portText_free (plain : ∀ p ∈ port, PlainPort p) (digit : c.isDigit = false) (other : c ≠ ':') :
    Free c (portText port) := by
  cases port with
  | none => exact List.not_mem_nil
  | some p =>
    intro mem
    simp only [portText, String.toList_append, String.toList_singleton, List.mem_append, List.mem_singleton] at mem
    rcases mem with colon | mem
    · exact other colon
    · exact (plain p rfl).free digit mem

/-- What the engine takes for `host[:port]`. -/
def behindUser (a : String) : Option String :=
  match splitOnce '@' a with
  | some (u, t) => if userOk u then some t else none
  | none => some a

/-- The host and the port of `host[:port]`, as the engine reads them. -/
def readHost (d : UInt16) (t : String) : Option (String × UInt16) :=
  (hostAndPort t).bind fun q => (portOf d q.2).map fun m => (q.1, m)

theorem authority_eq :
    authority a d = if 1 < a.toList.count '@' then none else (behindUser a).bind (readHost d) := by
  have reads : ∀ t, (do let q ← hostAndPort t; return (q.1, ← portOf d q.2)) = readHost d t := by
    intro t
    unfold readHost
    cases hostAndPort t with
    | none => rfl
    | some q =>
      simp only [Option.bind_eq_bind, Option.bind_some]
      cases portOf d q.2 <;> rfl
  unfold authority behindUser
  by_cases many : 1 < a.toList.count '@'
  · rw [if_pos many, if_pos many]
    rfl
  · rw [if_neg many, if_neg many]
    cases splitOnce '@' a with
    | none => exact reads a
    | some q =>
      obtain ⟨u, t⟩ := q
      dsimp only
      by_cases ok : userOk u = true
      · rw [if_pos ok, if_pos ok]
        exact reads t
      · rw [if_neg ok, if_neg ok]
        rfl

theorem readHost_iff : readHost d t = some (h, n) ↔
    ∃ host port, t = host ++ portText port ∧ PlainHost host ∧ (∀ p ∈ port, PlainPort p) ∧ h = lowered host ∧
      Uri.effectivePort d.toNat port = some n.toNat := by
  constructor
  · intro read
    obtain ⟨⟨h', port⟩, parts, read⟩ := Option.bind_eq_some_iff.mp read
    obtain ⟨m, value, same⟩ := Option.map_eq_some_iff.mp read
    cases same
    obtain ⟨host, whole, plain, rfl⟩ := hostAndPort_iff.mp parts
    obtain ⟨each, used⟩ := portOf_iff.mp value
    exact ⟨host, port, whole, plain, each, rfl, used⟩
  · rintro ⟨host, port, whole, plain, each, rfl, used⟩
    rw [readHost, hostAndPort_iff.mpr ⟨host, whole, plain, rfl⟩, Option.bind_some, portOf_iff.mpr ⟨each, used⟩]
    rfl

theorem count_free (free : Free c t) : t.toList.count c = 0 := List.count_eq_zero.mpr free

/-- The host and the port of an authority, where the engine names them. -/
theorem authority_iff : authority a d = some (h, n) ↔
    ∃ user host port, a = user ++ (host ++ portText port) ∧ UserPart user ∧ PlainHost host ∧
      (∀ p ∈ port, PlainPort p) ∧ h = lowered host ∧ Uri.effectivePort d.toNat port = some n.toNat := by
  rw [authority_eq]
  constructor
  · intro read
    split at read
    · cases read
    · obtain ⟨t, behind, read⟩ := Option.bind_eq_some_iff.mp read
      obtain ⟨host, port, rfl, plain, each, same, used⟩ := readHost_iff.mp read
      unfold behindUser at behind
      cases split : splitOnce '@' a with
      | none =>
        rw [split] at behind
        cases behind
        exact ⟨"", host, port, String.empty_append.symm, .inl rfl, plain, each, same, used⟩
      | some q =>
        obtain ⟨u, t⟩ := q
        rw [split] at behind
        dsimp only at behind
        split at behind
        next ok =>
          cases behind
          obtain ⟨rfl, _⟩ := splitOnce_iff.mp split
          exact ⟨u ++ String.singleton '@', host, port, (String.append_assoc ..).symm, .inr ⟨u, rfl, userOk_iff.mp ok⟩, plain,
            each, same, used⟩
        · cases behind
  · rintro ⟨user, host, port, rfl, part, plain, each, same, used⟩
    have free : Free '@' (host ++ portText port) := by
      intro mem
      rw [String.toList_append, List.mem_append] at mem
      rcases mem with mem | mem
      · exact plain.free (by decide) (by decide) (by decide) mem
      · exact portText_free each (by decide) (by decide) mem
    have read : readHost d (host ++ portText port) = some (h, n) :=
      readHost_iff.mpr ⟨host, port, rfl, plain, each, same, used⟩
    rcases part with rfl | ⟨u, rfl, plainUser⟩
    · rw [String.empty_append, count_free free, if_neg (by decide), behindUser, splitOnce_none free]
      exact read
    · have freeUser : Free '@' u := plainUser.free (by decide) (by decide)
      have one : (u ++ String.singleton '@' ++ (host ++ portText port)).toList.count '@' = 1 := by
        rw [String.toList_append, String.toList_append, List.count_append, List.count_append, count_free freeUser,
          count_free free, String.toList_singleton, List.count_singleton_self]
      rw [one, if_neg (by decide), behindUser, String.append_assoc, splitOnce_append freeUser]
      dsimp only
      rw [if_pos (userOk_iff.mpr plainUser)]
      exact read

/-! ## Transports -/

theorem schemed_iff : schemed url = some (transport, rest) ↔
    ∃ scheme, (scheme, transport) ∈ [("https", Transport.https), ("http", .http), ("ssh", .ssh)] ∧
      url = scheme ++ "://" ++ rest := by
  constructor
  · intro found
    obtain ⟨⟨start, t⟩, mem, strips⟩ := List.exists_of_findSome?_eq_some found
    obtain ⟨rest', strip, same⟩ := Option.map_eq_some_iff.mp strips
    cases same
    obtain rfl := eq_of_stripPrefix strip
    simp only [schemes, List.mem_cons, Prod.mk.injEq, List.not_mem_nil, or_false] at mem
    rcases mem with ⟨rfl, rfl⟩ | ⟨rfl, rfl⟩ | ⟨rfl, rfl⟩
    · exact ⟨"https", by simp, rfl⟩
    · exact ⟨"http", by simp, rfl⟩
    · exact ⟨"ssh", by simp, rfl⟩
  · rintro ⟨scheme, mem, rfl⟩
    simp only [List.mem_cons, Prod.mk.injEq, List.not_mem_nil, or_false] at mem
    have begins : ∀ {p : String}, stripPrefix p (p ++ rest) = some rest := stripPrefix_append
    rcases mem with ⟨rfl, rfl⟩ | ⟨rfl, rfl⟩ | ⟨rfl, rfl⟩
    · have strip : stripPrefix "https://" ("https" ++ "://" ++ rest) = some rest := begins (p := "https://")
      simp only [schemed, schemes, List.findSome?_cons, strip, Option.map_some]
    · have strip : stripPrefix "http://" ("http" ++ "://" ++ rest) = some rest := begins (p := "http://")
      have other : stripPrefix "https://" ("http" ++ "://" ++ rest) = none := by
        rw [Option.eq_none_iff_forall_ne_some]
        intro rest' found
        have chars := congrArg String.toList (eq_of_stripPrefix found)
        simp at chars
      simp only [schemed, schemes, List.findSome?_cons, strip, other, Option.map_some, Option.map_none]
    · have strip : stripPrefix "ssh://" ("ssh" ++ "://" ++ rest) = some rest := begins (p := "ssh://")
      have other : stripPrefix "https://" ("ssh" ++ "://" ++ rest) = none ∧
          stripPrefix "http://" ("ssh" ++ "://" ++ rest) = none := by
        rw [Option.eq_none_iff_forall_ne_some, Option.eq_none_iff_forall_ne_some]
        constructor <;>
        · intro rest' found
          have chars := congrArg String.toList (eq_of_stripPrefix found)
          simp at chars
      simp only [schemed, schemes, List.findSome?_cons, strip, other.1, other.2, Option.map_some, Option.map_none]

/-- No character that the engine's destinations leave out. -/
def PlainChars (url : String) : Prop :=
  url ≠ "" ∧ ∀ c ∈ url.toList, (isControl c || isWhitespace c || c = '\\') = false

/-- What the engine names as a destination. -/
theorem destination_iff {D : Destination} : destination url = some D ↔ PlainChars url ∧
    ((∃ rest, schemed url = some (D.transport, rest) ∧
        authority (firstPart '/' rest) D.transport.defaultPort = some (D.host, D.port)) ∨
      (schemed url = none ∧ containsText "://" url = false ∧ D.transport = .ssh ∧ D.port = 22 ∧
        ∃ left path, splitOnce ':' url = some (left, path) ∧ Free '/' left ∧ path ≠ "" ∧
          ∃ n, authority left 22 = some (D.host, n))) := by
  obtain ⟨transport, host, port⟩ := D
  have guard : (url.isEmpty || url.toList.any fun c => isControl c || isWhitespace c || c = '\\') = false ↔
      PlainChars url := by
    rw [Bool.or_eq_false_iff, List.any_eq_false, Bool.eq_false_iff, ne_eq, String.isEmpty_iff]
    exact and_congr_right fun _ => forall_congr' fun c => forall_congr' fun _ => Bool.not_eq_true _ ▸ Iff.rfl
  rw [← guard, destination]
  split
  next bad =>
    refine iff_of_false nofun fun both => ?_
    rw [both.1] at bad
    cases bad
  next good =>
    rw [and_iff_right (Bool.eq_false_iff.mpr good)]
    cases found : schemed url with
    | some q =>
      obtain ⟨t, rest⟩ := q
      dsimp only
      constructor
      · intro read
        obtain ⟨⟨h, n⟩, parts, same⟩ := Option.bind_eq_some_iff.mp read
        cases same
        exact .inl ⟨rest, rfl, parts⟩
      · rintro (⟨rest', same, parts⟩ | ⟨no, _⟩)
        · cases same
          rw [parts]
          rfl
        · cases no
    | none =>
      dsimp only
      by_cases scheme : containsText "://" url = true
      · rw [if_pos scheme]
        refine iff_of_false nofun ?_
        rintro (⟨_, no, _⟩ | ⟨_, plain, _⟩)
        · cases no
        · exact Bool.false_ne_true (plain.symm.trans scheme)
      · rw [if_neg scheme]
        have plain : containsText "://" url = false := Bool.eq_false_iff.mpr scheme
        constructor
        · intro read
          obtain ⟨⟨left, path⟩, parts, read⟩ := Option.bind_eq_some_iff.mp read
          dsimp only at read
          split at read
          · cases read
          next shape =>
            obtain ⟨⟨h, n⟩, host, same⟩ := Option.bind_eq_some_iff.mp read
            cases same
            rw [Bool.or_eq_true, not_or, containsChar_iff, Decidable.not_not, String.isEmpty_iff] at shape
            exact .inr ⟨rfl, plain, rfl, rfl, left, path, parts, shape.1, shape.2, n, host⟩
        · rintro (⟨_, no, _⟩ | ⟨_, _, same, same', left, path, parts, slash, some, n, host⟩)
          · cases no
          · subst same same'
            have shape : ¬ (containsChar '/' left || path.isEmpty) = true := by
              rw [Bool.or_eq_true, not_or, containsChar_iff, Decidable.not_not, String.isEmpty_iff]
              exact ⟨slash, some⟩
            rw [parts]
            simp only [Option.bind_eq_bind, Option.bind_some]
            rw [if_neg shape, host]
            rfl

/-! ## The standard parse of plain texts -/

theorem standardHost_plain (plain : PlainHost host) (each : ∀ p ∈ port, PlainPort p) :
    Uri.hostAndPort (host ++ portText port) = some (host, port) := by
  rcases plain with name | ⟨inner, rfl, colon, chars⟩
  · have free : Free ':' host := name.free (by decide) (by decide)
    cases port with
    | none =>
      rw [portText, String.append_empty]
      exact Uri.hostAndPort_name name.named free
    | some p => exact Uri.hostAndPort_name_port name.named free (each p rfl).digits
  · rw [Uri.hostAndPort_bracket (Bracketed.inner_free chars (by decide) (by decide))]
    cases port with
    | none => rfl
    | some p => exact congrArg (Option.map _) (Uri.portAfter_port (each p rfl).digits)

theorem plain_parts (whole : a = user ++ (host ++ portText port)) (part : UserPart user) (plain : PlainHost host)
    (each : ∀ p ∈ port, PlainPort p) :
    (∀ c ∈ a.toList, Uri.endsAuthority c = false) ∧ Uri.hostport a = host ++ portText port := by
  have free : ∀ {c : Char}, c.isAlphanum = false → hexDigit c = false → c ∉ ['-', '.', ':', '[', ']'] →
      c.isDigit = false → c ≠ ':' → Free c (host ++ portText port) := by
    intro c alphanum digit other decimal colon mem
    rw [String.toList_append, List.mem_append] at mem
    rcases mem with mem | mem
    · exact plain.free alphanum digit other mem
    · exact portText_free each decimal colon mem
  have at_free : Free '@' (host ++ portText port) := free (by decide) (by decide) (by decide) (by decide) (by decide)
  have ends_free : ∀ c ∈ ['/', '?', '#'], Free c (host ++ portText port) := by
    intro c mem
    simp only [List.mem_cons, List.not_mem_nil, or_false] at mem
    rcases mem with rfl | rfl | rfl
    · exact free (by decide) (by decide) (by decide) (by decide) (by decide)
    · exact free (by decide) (by decide) (by decide) (by decide) (by decide)
    · exact free (by decide) (by decide) (by decide) (by decide) (by decide)
  rcases part with rfl | ⟨u, rfl, plainUser⟩
  · rw [String.empty_append] at whole
    subst whole
    refine ⟨fun c mem => Bool.eq_false_iff.mpr fun ends => ?_, Uri.hostport_of_free at_free⟩
    exact ends_free c (by simpa using Uri.endsAuthority_iff.mp ends) mem
  · rw [String.append_assoc] at whole
    subst whole
    refine ⟨fun c mem => Bool.eq_false_iff.mpr fun ends => ?_, Uri.hostport_append at_free⟩
    have ending := Uri.endsAuthority_iff.mp ends
    rw [String.toList_append, String.toList_append, String.toList_singleton, List.mem_append, List.mem_append,
      List.mem_singleton] at mem
    rcases mem with mem | rfl | mem
    · rcases ending with rfl | rfl | rfl
      · exact plainUser.free (by decide) (by decide) mem
      · exact plainUser.free (by decide) (by decide) mem
      · exact plainUser.free (by decide) (by decide) mem
    · exact absurd ending (by decide)
    · exact ends_free c (by simpa using ending) mem

theorem standardEndpoint_schemed (found : schemed url = some (transport, rest))
    (named : authority (firstPart '/' rest) transport.defaultPort = some (h, n)) :
    standardEndpoint url = some ⟨transport, h, n.toNat⟩ := by
  obtain ⟨scheme, known, rfl⟩ := schemed_iff.mp found
  obtain ⟨user, host, port, whole, part, plain, each, rfl, used⟩ := authority_iff.mp named
  obtain ⟨ends, hostport⟩ := plain_parts whole part plain each
  have reaches : Uri.authority rest = firstPart '/' rest := by
    rw [← authority_firstPart]
    exact Uri.authority_of_free ends
  have transports : transportOf scheme = some transport ∧ scheme ∈ ["https", "http", "ssh", "file"] := by
    simp only [List.mem_cons, Prod.mk.injEq, List.not_mem_nil, or_false] at known
    rcases known with ⟨rfl, rfl⟩ | ⟨rfl, rfl⟩ | ⟨rfl, rfl⟩
    · exact ⟨by decide, by decide⟩
    · exact ⟨by decide, by decide⟩
    · exact ⟨by decide, by decide⟩
  rw [standardEndpoint, hierarchical_known transports.2]
  dsimp only
  rw [transports.1, Option.bind_some, reaches, hostport, standardHost_plain plain each, Option.bind_some, used]
  rfl

/-! ### `user@host:path` -/

theorem scpSplit_plain {left path : List Char} (colon : ':' ∉ left) (bracket : '[' ∉ left) :
    scpSplit false (left ++ ':' :: path) = some (left, path) := by
  induction left with
  | nil => rfl
  | cons c left ih =>
    have other : ¬ (c = ':' && !false) = true := by
      simpa using fun same : c = ':' => colon (same ▸ List.mem_cons_self)
    have outside : (c = '[' || (false && c ≠ ']')) = false := by
      simpa using fun same : c = '[' => bracket (same ▸ List.mem_cons_self)
    rw [List.cons_append, scpSplit, if_neg other, outside,
      ih (fun mem => colon (List.mem_cons_of_mem c mem)) fun mem => bracket (List.mem_cons_of_mem c mem)]
    rfl

theorem standardEndpoint_scp (plainUrl : containsText "://" url = false) (parts : splitOnce ':' url = some (left, path))
    (slash : Free '/' left) (filled : path ≠ "") (named : authority left d = some (h, n)) :
    standardEndpoint url = some ⟨.ssh, h, 22⟩ := by
  obtain ⟨rfl, colon⟩ := splitOnce_iff.mp parts
  obtain ⟨user, host, port, whole, part, plain, each, rfl, _⟩ := authority_iff.mp named
  obtain ⟨_, hostport⟩ := plain_parts whole part plain each
  have noPort : port = none := by
    cases port with
    | none => rfl
    | some p => exact absurd (by simp [whole, portText]) colon
  subst noPort
  rw [portText, String.append_empty] at whole hostport
  have name : DnsName host := by
    rcases plain with name | ⟨inner, rfl, inside, _⟩
    · exact name
    · exact absurd (fun mem => colon (by simp [whole, mem])) inside
  have bracket : Free '[' left := by
    rw [whole]
    intro mem
    rw [String.toList_append, List.mem_append] at mem
    rcases mem with mem | mem
    · rcases part with rfl | ⟨u, rfl, plainUser⟩
      · cases mem
      · rw [String.toList_append, List.mem_append] at mem
        rcases mem with mem | mem
        · exact plainUser.free (by decide) (by decide) mem
        · exact absurd (List.mem_singleton.mp mem) (by decide)
    · exact name.free (by decide) (by decide) mem
  have chars : (left ++ (String.singleton ':' ++ path)).toList = left.toList ++ ':' :: path.toList := by simp
  have shape : ¬ (left.toList.contains '/' || path.toList.isEmpty) = true := by
    rw [Bool.or_eq_true, not_or, List.contains_iff_mem, List.isEmpty_iff, String.toList_eq_nil_iff]
    exact ⟨slash, filled⟩
  rw [standardEndpoint, hierarchical_none plainUrl]
  dsimp only
  rw [chars, scpSplit_plain colon bracket, Option.bind_some]
  dsimp only
  rw [if_neg shape, String.ofList_toList, hostport]

/-! ## Destinations -/

/-- A destination is where the standard parse goes. -/
theorem destination_endpoint {D : Destination} (named : destination url = some D) :
    standardEndpoint url = some D.endpoint := by
  obtain ⟨_, ⟨rest, found, host⟩ | ⟨_, plain, transport, port, left, path, parts, slash, filled, n, host⟩⟩ :=
    destination_iff.mp named
  · exact standardEndpoint_schemed found host
  · rw [standardEndpoint_scp plain parts slash filled host, Destination.endpoint, transport, port]
    rfl

theorem Destination.endpoint_inj {D D' : Destination} : D.endpoint = D'.endpoint ↔ D = D' := by
  refine ⟨fun same => ?_, congrArg Destination.endpoint⟩
  obtain ⟨transport, host, port⟩ := D
  obtain ⟨transport', host', port'⟩ := D'
  obtain ⟨rfl, rfl, ports⟩ := Endpoint.mk.inj same
  cases UInt16.toNat_inj.mp ports
  rfl

theorem plainChars_of_validateUrl (accepted : validateUrl url = .ok kind) (slash : Free '\\' url) : PlainChars url := by
  unfold validateUrl at accepted
  split at accepted
  · cases accepted
  next size =>
    rw [Bool.or_eq_true, not_or] at size
    split at accepted
    · cases accepted
    · split at accepted
      · cases accepted
      next none =>
        refine ⟨fun empty => size.1 (String.isEmpty_iff.mpr empty), fun c mem => ?_⟩
        have plain := List.find?_eq_none.mp none c mem
        have other : c ≠ '\\' := by
          rintro rfl
          exact slash mem
        rw [Bool.not_eq_true] at plain
        rw [plain, Bool.false_or, decide_eq_false other]

/-- An authority has a host exactly when it is plain. -/
theorem plainAuthority_iff : PlainAuthority a ↔ ∃ h n, authority a d = some (h, n) := by
  constructor
  · rintro ⟨user, host, port, whole, part, plain, each⟩
    have used : ∃ n : UInt16, Uri.effectivePort d.toNat port = some n.toNat := by
      cases port with
      | none => exact ⟨d, rfl⟩
      | some p =>
        obtain ⟨filled, _, _, m, value, _, most⟩ := each p rfl
        have some : p.isEmpty = false := Bool.eq_false_iff.mpr fun empty => filled (String.isEmpty_iff.mp empty)
        refine ⟨UInt16.ofNat m, ?_⟩
        rw [Uri.effectivePort, some, UInt16.toNat_ofNat', Nat.mod_eq_of_lt (by omega)]
        exact value
    obtain ⟨n, used⟩ := used
    exact ⟨lowered host, n, authority_iff.mpr ⟨user, host, port, whole, part, plain, each, rfl, used⟩⟩
  · rintro ⟨h, n, named⟩
    obtain ⟨user, host, port, whole, part, plain, each, _, _⟩ := authority_iff.mp named
    exact ⟨user, host, port, whole, part, plain, each⟩

/-- **Destinations.** What the engine names for an accepted URL is the endpoint of its standard parse, so that two
destinations are equal when the endpoints are; and it names one for the URLs with a plain authority and no others. -/
theorem destination_standard (accepted : validateUrl url = .ok kind) :
    (∀ D, destination url = some D → standardEndpoint url = some D.endpoint) ∧
      (∀ url' kind' D D', validateUrl url' = .ok kind' → destination url = some D → destination url' = some D' →
        (D = D' ↔ standardEndpoint url = standardEndpoint url')) ∧
      ((destination url).isSome = true ↔ PlainDestination url) := by
  refine ⟨fun D => destination_endpoint, fun url' kind' D D' _ first second => ?_, ?_⟩
  · rw [destination_endpoint first, destination_endpoint second, Option.some.injEq, Destination.endpoint_inj]
  · rw [Option.isSome_iff_exists]
    constructor
    · rintro ⟨D, named⟩
      obtain ⟨⟨_, chars⟩, shape⟩ := destination_iff.mp named
      refine ⟨fun mem => by simpa using chars '\\' mem, ?_⟩
      rcases shape with ⟨rest, found, host⟩ | ⟨_, plain, _, _, left, path, parts, slash, filled, n, host⟩
      · obtain ⟨scheme, known, whole⟩ := schemed_iff.mp found
        refine .inl ⟨scheme, rest, ?_, whole, plainAuthority_iff.mpr ⟨_, _, host⟩⟩
        exact List.mem_map_of_mem (f := Prod.fst) known
      · exact .inr ⟨plain, left, path, parts, slash, filled, plainAuthority_iff.mpr ⟨_, _, host⟩⟩
    · rintro ⟨backslash, shape⟩
      have chars := plainChars_of_validateUrl accepted backslash
      rcases shape with ⟨scheme, rest, known, whole, plain⟩ | ⟨plainUrl, left, path, parts, slash, filled, plain⟩
      · have transport : ∃ t, (scheme, t) ∈ [("https", Transport.https), ("http", .http), ("ssh", .ssh)] := by
          simp only [List.mem_cons, List.not_mem_nil, or_false] at known
          rcases known with rfl | rfl | rfl
          · exact ⟨.https, by simp⟩
          · exact ⟨.http, by simp⟩
          · exact ⟨.ssh, by simp⟩
        obtain ⟨t, known⟩ := transport
        obtain ⟨h, n, host⟩ := plainAuthority_iff (d := t.defaultPort).mp plain
        exact ⟨⟨t, h, n⟩, destination_iff.mpr ⟨chars, .inl ⟨rest, schemed_iff.mpr ⟨scheme, known, whole⟩, host⟩⟩⟩
      · have none : schemed url = none := by
          rw [Option.eq_none_iff_forall_ne_some]
          rintro ⟨t, rest⟩ found
          obtain ⟨scheme, _, rfl⟩ := schemed_iff.mp found
          have inside : containsText "://" (scheme ++ "://" ++ rest) = true := by
            rw [containsText, String.toList_append, String.toList_append, List.append_assoc]
            exact occurs_between _ _
          cases plainUrl.symm.trans inside
        obtain ⟨h, n, host⟩ := plainAuthority_iff (d := 22).mp plain
        exact ⟨⟨.ssh, h, 22⟩, destination_iff.mpr
          ⟨chars, .inr ⟨none, plainUrl, rfl, rfl, left, path, parts, slash, filled, n, host⟩⟩⟩

theorem destination_standard_ssh : standardEndpoint "ssh://git@Example.com:022/x" = some ⟨.ssh, "example.com", 22⟩ :=
  (destination_standard (Journal.ok_of_toOption (by decide) : validateUrl _ = .ok .ssh)).1 ⟨.ssh, "example.com", 22⟩
    (by decide)

/-- An authority that a `?` ends is plain, but not what the engine takes for the authority. -/
theorem destination_query_none :
    ¬ ∀ url kind, validateUrl url = .ok kind → kind ≠ .file →
      (∃ scheme rest, Uri.hierarchical url = some (scheme, rest) ∧ PlainAuthority (Uri.authority rest)) →
      (destination url).isSome = true := by
  intro always
  have plain : PlainAuthority (Uri.authority "example.com?x") :=
    plainAuthority_iff (d := 443).mpr ⟨"example.com", 443, by decide⟩
  have named := always "https://example.com?x" .https (Journal.ok_of_toOption (by decide)) nofun
    ⟨"https", "example.com?x", by decide, plain⟩
  exact absurd named (by decide)

end Harpoon.Git
