import Harpoon.Wire.Number

/-!
# The parts of a URL

How a URL is taken apart by the generic syntax of URLs: the scheme ends at the first `:`, the authority at the first
`/`, `?` or `#`, the user information at the last `@` of the authority; the host is what stands before the port, and
may be an address in brackets.
-/

namespace Harpoon.Uri

open Wire

/-! ## Definitions -/

/-- Does the character end an authority? -/
def endsAuthority (c : Char) : Bool := c = '/' || c = '?' || c = '#'

/-- The scheme, and what follows `scheme://`. -/
def hierarchical (url : String) : Option (String × String) :=
  (splitOnce ':' url).bind fun s =>
    if s.1.isEmpty || s.1.toList.any endsAuthority then none
    else (stripPrefix "//" s.2).map fun rest => (s.1, rest)

/-- The authority at the start of what follows `scheme://`. -/
def authority (rest : String) : String := String.ofList (rest.toList.takeWhile fun c => !endsAuthority c)

/-- The user information of an authority. -/
def userinfo (authority : String) : Option String := (rsplitOnce '@' authority).map (·.1)

/-- The host and the port of an authority, in one text. -/
def hostport (authority : String) : String := ((rsplitOnce '@' authority).map (·.2)).getD authority

def isPort (p : String) : Bool := p.toList.all Char.isDigit

/-- What follows the host. -/
def portAfter (after : String) : Option (Option String) :=
  if after.isEmpty then some none
  else ((stripPrefix ":" after).filter isPort).map some

/-- The host of `host[:port]`, with its brackets if it has any, and the text of the port. -/
def hostAndPort (hostport : String) : Option (String × Option String) :=
  match stripPrefix "[" hostport with
  | some rest => (splitOnce ']' rest).bind fun s => (portAfter s.2).map fun port => ("[" ++ s.1 ++ "]", port)
  | none =>
    match splitOnce ':' hostport with
    | some (host, port) => if isPort port then some (host, some port) else none
    | none => some (hostport, none)

/-- The port that is used, by the one that is given. -/
def effectivePort (default : Nat) : Option String → Option Nat
  | none => some default
  | some p => if p.isEmpty then some default else readDigits 10 0 p.toList

/-! ## Lemmas -/

variable {a p t u h host port rest scheme : String} {sep c : Char}

theorem endsAuthority_iff : endsAuthority c = true ↔ c = '/' ∨ c = '?' ∨ c = '#' := by
  simp [endsAuthority, or_assoc]

/-- A URL with a plain scheme is taken apart at its `://`. -/
theorem hierarchical_append (some : scheme ≠ "") (colon : Free ':' scheme)
    (plain : ∀ c ∈ scheme.toList, endsAuthority c = false) :
    hierarchical (scheme ++ "://" ++ rest) = Option.some (scheme, rest) := by
  have parts : scheme ++ "://" ++ rest = scheme ++ (String.singleton ':' ++ ("//" ++ rest)) := by
    have sep : "://" = String.singleton ':' ++ "//" := rfl
    rw [sep, String.append_assoc, String.append_assoc]
  have filled : scheme.isEmpty = false := by
    rw [Bool.eq_false_iff]
    exact fun empty => some (String.isEmpty_iff.mp empty)
  have free : scheme.toList.any endsAuthority = false := by
    rw [List.any_eq_false]
    exact fun c mem ends => Bool.false_ne_true ((plain c mem).symm.trans ends)
  rw [hierarchical, parts, splitOnce_append colon]
  simp only [Option.bind_some, filled, free, Bool.or_self, Bool.false_eq_true, if_false, stripPrefix_append,
    Option.map_some]

/-- An authority goes on up to the end or to a character that ends it. -/
theorem authority_of_plain (plain : ∀ c ∈ a.toList, endsAuthority c = false)
    (ends : ∀ c, t.toList.head? = some c → endsAuthority c = true) : authority (a ++ t) = a := by
  have passes : ∀ c ∈ a.toList, (!endsAuthority c) = true := fun c mem => by rw [plain c mem]; rfl
  have stops : t.toList.takeWhile (fun c => !endsAuthority c) = [] := by
    cases chars : t.toList with
    | nil => rfl
    | cons c cs =>
      rw [List.takeWhile_cons, ends c (by rw [chars]; rfl)]
      rfl
  rw [authority, String.toList_append, List.takeWhile_append_of_pos passes, stops, List.append_nil, String.ofList_toList]

theorem takeWhile_until {f : Char → Bool} {xs ys : List Char} (stop : f c = false) :
    (xs ++ c :: ys).takeWhile f = xs.takeWhile f := by
  induction xs with
  | nil => rw [List.nil_append, List.takeWhile_cons, stop]; rfl
  | cons x xs ih => rw [List.cons_append, List.takeWhile_cons, List.takeWhile_cons, ih]

theorem authority_until (ends : endsAuthority c = true) :
    authority (p ++ (String.singleton c ++ t)) = authority p := by
  have chars : (p ++ (String.singleton c ++ t)).toList = p.toList ++ c :: t.toList := by simp
  rw [authority, authority, chars, takeWhile_until (by rw [ends]; rfl)]

/-- The authority is the start of the text. -/
theorem exists_behind_authority (a : String) : ∃ e, a = authority a ++ e := by
  refine ⟨String.ofList (a.toList.dropWhile fun c => !endsAuthority c), ?_⟩
  rw [← String.toList_inj, String.toList_append, authority, String.toList_ofList, String.toList_ofList,
    List.takeWhile_append_dropWhile]

theorem authority_of_free (plain : ∀ c ∈ a.toList, endsAuthority c = false) : authority a = a := by
  have whole := authority_of_plain (t := "") plain nofun
  rwa [String.append_empty] at whole

theorem hostport_of_free (free : Free '@' a) : hostport a = a := by
  rw [hostport, rsplitOnce_none_iff.mpr free]
  rfl

theorem hostport_append (free : Free '@' t) : hostport (u ++ (String.singleton '@' ++ t)) = t := by
  rw [hostport, rsplitOnce_append free]
  rfl

/-! ### Hosts -/

/-- The text begins with a character that is no bracket. -/
def Named (h : String) : Prop := ∃ d ds, h.toList = d :: ds ∧ '[' ≠ d

theorem Named.append (named : Named h) : Named (h ++ t) := by
  obtain ⟨d, ds, chars, other⟩ := named
  exact ⟨d, ds ++ t.toList, by rw [String.toList_append, chars, List.cons_append], other⟩

theorem Named.stripPrefix (named : Named h) : stripPrefix "[" h = none := by
  obtain ⟨d, ds, chars, other⟩ := named
  exact stripPrefix_none rfl chars other

theorem hostAndPort_name (named : Named h) (colon : Free ':' h) : hostAndPort h = some (h, none) := by
  rw [hostAndPort, named.stripPrefix]
  dsimp only
  rw [splitOnce_none colon]

theorem hostAndPort_name_port (named : Named h) (colon : Free ':' h) (digits : isPort p = true) :
    hostAndPort (h ++ (String.singleton ':' ++ p)) = some (h, some p) := by
  rw [hostAndPort, named.append.stripPrefix]
  dsimp only
  rw [splitOnce_append colon]
  exact if_pos digits

theorem hostAndPort_bracket (free : Free ']' t) :
    hostAndPort ("[" ++ t ++ "]" ++ u) = (portAfter u).map fun port => ("[" ++ t ++ "]", port) := by
  have parts : "[" ++ t ++ "]" ++ u = "[" ++ (t ++ (String.singleton ']' ++ u)) := by
    have close : "]" = String.singleton ']' := rfl
    rw [close, String.append_assoc, String.append_assoc]
  rw [hostAndPort, parts, stripPrefix_append]
  dsimp only
  rw [splitOnce_append free, Option.bind_some]

theorem portAfter_port (digits : isPort p = true) : portAfter (":" ++ p) = some (some p) := by
  have filled : (":" ++ p).isEmpty = false := by
    rw [Bool.eq_false_iff]
    intro empty
    have none := congrArg String.toList (String.isEmpty_iff.mp empty)
    rw [String.toList_append] at none
    cases none
  rw [portAfter, filled, stripPrefix_append, Option.filter_some, if_pos digits]
  rfl

end Harpoon.Uri
