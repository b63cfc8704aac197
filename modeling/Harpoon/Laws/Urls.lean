import Harpoon.Git.Url
import Harpoon.Journal.Frame
import Harpoon.Uri.Authority

/-!
# Accepted URLs, and what they reach

What the engine accepts as a URL, against the way a URL is taken apart by the generic syntax. The engine looks for a
password before the first `@` and takes the authority to end at the first `/` only. So a password behind an `@` of the
user information is not found, and a text that ends in a loopback host behind a `?` or a `#` is taken for that host.

Which hosts are loopback hosts is left open, as long as the three that the engine knows are among them.
-/

namespace Harpoon.Git

open Wire

/-! ## What is to hold -/

/-- There is no password in the user information of the authority. -/
def NoPassword (authority : String) : Prop := ∀ u, Uri.userinfo authority = some u → Free ':' u

/-- The host of the authority is a loopback host. -/
def OnLoopback (loopback : String → Prop) (authority : String) : Prop :=
  ∃ host port, Uri.hostAndPort (Uri.hostport authority) = some (host, port) ∧ loopback host

/-- The URL has no password, and plain `http` stays on this machine. -/
structure SafeUrl (loopback : String → Prop) (url : String) (kind : UrlKind) : Prop where
  noPassword : ∀ scheme rest, Uri.hierarchical url = some (scheme, rest) → NoPassword (Uri.authority rest)
  loopback : kind = .httpLoopback → ∃ scheme rest, Uri.hierarchical url = some (scheme, rest) ∧
    OnLoopback loopback (Uri.authority rest)

/-! ## When it holds -/

/-- There is no `:` behind an `@` in the user information of the authority. -/
def PlainUserinfo (authority : String) : Prop :=
  ∀ u, Uri.userinfo authority = some u → ∀ x w, splitOnce '@' u = some (x, w) → Free ':' w

/-- No `:` behind an `@` in the user information; and behind `http://` no `?` or `#` before the first `/`, unless a
loopback host stands before it. -/
structure PlainUrl (loopback : String → Prop) (url : String) (kind : UrlKind) : Prop where
  userinfo : ∀ scheme rest, Uri.hierarchical url = some (scheme, rest) → PlainUserinfo (Uri.authority rest)
  ends : kind = .httpLoopback → ∃ scheme rest, Uri.hierarchical url = some (scheme, rest) ∧
    (Free '?' (firstPart '/' rest) ∧ Free '#' (firstPart '/' rest) ∨ OnLoopback loopback (Uri.authority rest))

variable {loopback : String → Prop} {url a p s t u rest : String} {sep : Char} {kind : UrlKind}

/-! ## Parts -/

theorem firstPart_before (free : Free sep p) : firstPart sep (p ++ (String.singleton sep ++ t)) = p := by
  rw [firstPart, fields_before free]
  rfl

theorem firstPart_free (free : Free sep s) : firstPart sep s = s := by
  rw [firstPart, fields_of_free free]
  rfl

theorem firstPart_eq : firstPart sep s = ((splitOnce sep s).map (·.1)).getD s := by
  cases split : splitOnce sep s with
  | none => exact firstPart_free (splitOnce_none_iff.mp split)
  | some q =>
    obtain ⟨p, t⟩ := q
    obtain ⟨rfl, free⟩ := splitOnce_iff.mp split
    exact firstPart_before free

theorem free_firstPart : Free sep (firstPart sep s) := by
  rw [firstPart_eq]
  cases split : splitOnce sep s with
  | none => exact splitOnce_none_iff.mp split
  | some q =>
    obtain ⟨p, t⟩ := q
    exact (splitOnce_iff.mp split).2

theorem mem_of_mem_firstPart {c : Char} (mem : c ∈ (firstPart sep s).toList) : c ∈ s.toList := by
  rw [firstPart_eq] at mem
  cases split : splitOnce sep s with
  | none =>
    rw [split] at mem
    exact mem
  | some q =>
    obtain ⟨p, t⟩ := q
    rw [split] at mem
    obtain ⟨rfl, _⟩ := splitOnce_iff.mp split
    rw [String.toList_append]
    exact List.mem_append_left _ mem

theorem lastPart_eq : lastPart sep s = ((rsplitOnce sep s).map (·.2)).getD s := by
  cases split : rsplitOnce sep s with
  | none =>
    rw [lastPart, fields_of_free (rsplitOnce_none_iff.mp split)]
    rfl
  | some q =>
    obtain ⟨p, t⟩ := q
    obtain ⟨rfl, free⟩ := rsplitOnce_iff.mp split
    rw [lastPart, fields_behind free, List.getLast?_concat]
    rfl

theorem containsChar_iff : containsChar sep s = true ↔ ¬ Free sep s := by
  rw [containsChar, List.contains_iff_mem, Free, Decidable.not_not]

/-- The authority ends before the first `/`. -/
theorem authority_firstPart : Uri.authority (firstPart '/' rest) = Uri.authority rest := by
  rw [firstPart_eq]
  cases split : splitOnce '/' rest with
  | none => rfl
  | some q =>
    obtain ⟨p, t⟩ := q
    obtain ⟨rfl, _⟩ := splitOnce_iff.mp split
    exact (Uri.authority_until (by decide)).symm

/-! ## Passwords -/

/-- What the engine finds before the first `@` is before the first `@` of the authority. -/
theorem free_before_at (accepted : hasPassword (firstPart '/' rest) = false) {x w : String}
    (parts : Uri.authority rest = x ++ (String.singleton '@' ++ w)) (first : Free '@' x) : Free ':' x := by
  obtain ⟨e, behind⟩ := Uri.exists_behind_authority (firstPart '/' rest)
  rw [authority_firstPart, parts, String.append_assoc, String.append_assoc] at behind
  rw [behind, hasPassword, firstPart_before first] at accepted
  have at_mem : containsChar '@' (x ++ (String.singleton '@' ++ (w ++ e))) = true := by
    rw [containsChar_iff]
    exact fun free => free (by simp)
  rw [at_mem, Bool.true_and] at accepted
  exact Decidable.not_not.mp fun colon => Bool.false_ne_true (accepted.symm.trans (containsChar_iff.mpr colon))

theorem noPassword_iff (accepted : hasPassword (firstPart '/' rest) = false) :
    NoPassword (Uri.authority rest) ↔ PlainUserinfo (Uri.authority rest) := by
  constructor
  · intro none u info x w split
    obtain ⟨rfl, _⟩ := splitOnce_iff.mp split
    exact fun colon => none _ info (by simp [colon])
  · intro plain u info
    obtain ⟨⟨u', t⟩, split, rfl⟩ := Option.map_eq_some_iff.mp info
    obtain ⟨parts, _⟩ := rsplitOnce_iff.mp split
    cases inner : splitOnce '@' u' with
    | none => exact free_before_at accepted parts (splitOnce_none_iff.mp inner)
    | some q =>
      obtain ⟨x, w⟩ := q
      have behind := plain u' info x w inner
      obtain ⟨rfl, first⟩ := splitOnce_iff.mp inner
      rw [String.append_assoc, String.append_assoc] at parts
      have before := free_before_at accepted parts first
      intro colon
      simp only [String.toList_append, String.toList_singleton, List.mem_append, List.mem_singleton] at colon
      rcases colon with colon | colon | colon
      · exact before colon
      · cases colon
      · exact behind colon

/-! ## Hosts -/

theorem hostport_eq : Uri.hostport a = lastPart '@' a := lastPart_eq.symm

theorem hostAndPort_known {h : String} (known : h ∈ ["127.0.0.1", "localhost", "[::1]"]) :
    Uri.hostAndPort h = some (h, none) ∧
      ∀ p, Uri.isPort p = true → Uri.hostAndPort (h ++ (String.singleton ':' ++ p)) = some (h, some p) := by
  have address : Uri.Named "127.0.0.1" := ⟨'1', _, rfl, by decide⟩
  have name : Uri.Named "localhost" := ⟨'l', _, rfl, by decide⟩
  simp only [List.mem_cons, List.not_mem_nil, or_false] at known
  rcases known with rfl | rfl | rfl
  · exact ⟨Uri.hostAndPort_name address (by decide), fun p => Uri.hostAndPort_name_port address (by decide)⟩
  · exact ⟨Uri.hostAndPort_name name (by decide), fun p => Uri.hostAndPort_name_port name (by decide)⟩
  · have bracket : ∀ u, Uri.hostAndPort ("[::1]" ++ u) = (Uri.portAfter u).map fun port => ("[::1]", port) :=
      fun u => Uri.hostAndPort_bracket (t := "::1") (by decide)
    refine ⟨?_, fun p digits => ?_⟩
    · rw [← String.append_empty (s := "[::1]"), bracket]
      rfl
    · rw [bracket]
      exact congrArg (Option.map _) (Uri.portAfter_port digits)

/-- The engine's host is the host where the authority ends at the first `/`. -/
theorem onLoopback_of_hostOf (known : ∀ h ∈ ["127.0.0.1", "localhost", "[::1]"], loopback h)
    (accepted : hostOf a ∈ ["127.0.0.1", "localhost", "[::1]"]) : OnLoopback loopback a := by
  have reads : ∃ port, Uri.hostAndPort (Uri.hostport a) = some (hostOf a, port) := by
    rw [hostport_eq]
    unfold hostOf at accepted ⊢
    dsimp only at accepted ⊢
    cases split : rsplitOnce ':' (lastPart '@' a) with
    | none =>
      rw [split] at accepted
      exact ⟨none, (hostAndPort_known accepted).1⟩
    | some q =>
      obtain ⟨h, p⟩ := q
      rw [split] at accepted
      dsimp only at accepted ⊢
      by_cases digits : p.toList.all Char.isDigit = true
      · rw [if_pos digits] at accepted ⊢
        rw [(rsplitOnce_iff.mp split).1]
        exact ⟨some p, (hostAndPort_known accepted).2 p digits⟩
      · rw [if_neg digits] at accepted ⊢
        exact ⟨none, (hostAndPort_known accepted).1⟩
  obtain ⟨port, read⟩ := reads
  exact ⟨_, port, read, known _ accepted⟩

/-! ## Accepted URLs -/

theorem password_of_both (accepted : (containsChar ':' a && hasPassword a) = false) : hasPassword a = false := by
  refine Bool.eq_false_iff.mpr fun found => ?_
  have colon : containsChar ':' a = true := by
    have before := (Bool.and_eq_true _ _ ▸ found : _ ∧ _).2
    rw [containsChar_iff, Free, Decidable.not_not] at before ⊢
    exact mem_of_mem_firstPart before
  rw [colon, found] at accepted
  cases accepted

/-- A known transport, with no password before the first `@`; a path; or `user@host:path`. -/
inductive Admitted : String → UrlKind → Prop where
  | https {rest : String} (password : hasPassword (firstPart '/' rest) = false) : Admitted ("https" ++ "://" ++ rest) .https
  | http {rest : String} (password : hasPassword (firstPart '/' rest) = false)
      (host : hostOf (firstPart '/' rest) ∈ ["127.0.0.1", "localhost", "[::1]"]) :
      Admitted ("http" ++ "://" ++ rest) .httpLoopback
  | ssh {rest : String} (password : hasPassword (firstPart '/' rest) = false) : Admitted ("ssh" ++ "://" ++ rest) .ssh
  | file {path : String} (absolute : startsWith '/' path = true) : Admitted ("file" ++ "://" ++ path) .file
  | scp {url : String} (like : isScpLike url = true) : Admitted url .ssh

theorem admitted_of_transport (accepted : validateTransport url = .ok kind) : Admitted url kind := by
  unfold validateTransport at accepted
  split at accepted
  next rest strip =>
    obtain rfl := eq_of_stripPrefix strip
    unfold validateHttps at accepted
    dsimp only at accepted
    split at accepted
    · cases accepted
    next password =>
      split at accepted
      · cases accepted
      · cases accepted
        exact .https (password_of_both (Bool.eq_false_iff.mpr password))
  next =>
    split at accepted
    next rest strip =>
      obtain rfl := eq_of_stripPrefix strip
      unfold validateHttp at accepted
      dsimp only at accepted
      split at accepted
      · cases accepted
      next password =>
        split at accepted
        next host =>
          cases accepted
          exact .http (Bool.eq_false_iff.mpr password) (List.contains_iff_mem.mp host)
        · cases accepted
    next =>
      split at accepted
      next rest strip =>
        obtain rfl := eq_of_stripPrefix strip
        unfold validateSsh at accepted
        dsimp only at accepted
        split at accepted
        · cases accepted
        next password =>
          split at accepted
          · cases accepted
          · cases accepted
            exact .ssh (password_of_both (Bool.eq_false_iff.mpr password))
      next =>
        split at accepted
        next path strip =>
          obtain rfl := eq_of_stripPrefix strip
          unfold validateFile at accepted
          split at accepted
          · cases accepted
          next absolute =>
            obtain ⟨_, _, done⟩ := Journal.bind_ok accepted
            cases done
            rw [Bool.or_eq_true, not_or, Bool.not_eq_true, Bool.not_eq_false'] at absolute
            exact .file absolute.1
        next =>
          split at accepted
          next like =>
            cases accepted
            exact .scp like
          · cases accepted

theorem admitted_of_validateUrl (accepted : validateUrl url = .ok kind) : Admitted url kind := by
  unfold validateUrl at accepted
  split at accepted
  · cases accepted
  · split at accepted
    · cases accepted
    · split at accepted
      · cases accepted
      · exact admitted_of_transport accepted

theorem occurs_between {p : List Char} : ∀ xs ys : List Char, occurs p (xs ++ (p ++ ys)) = true := by
  intro xs ys
  induction xs with
  | nil =>
    rw [List.nil_append]
    cases p with
    | nil => cases ys <;> rfl
    | cons c cs =>
      have begins : (c :: cs).isPrefixOf (c :: (cs ++ ys)) = true :=
        List.isPrefixOf_iff_prefix.mpr (List.prefix_append (c :: cs) ys)
      rw [List.cons_append, occurs, begins, Bool.true_or]
  | cons x xs ih => rw [List.cons_append, occurs, ih, Bool.or_true]

/-- Without `://` there is no authority. -/
theorem hierarchical_none (plain : containsText "://" url = false) : Uri.hierarchical url = none := by
  cases split : splitOnce ':' url with
  | none => rw [Uri.hierarchical, split, Option.bind_none]
  | some q =>
    obtain ⟨left, path⟩ := q
    cases strip : stripPrefix "//" path with
    | none =>
      rw [Uri.hierarchical, split, Option.bind_some]
      split
      · rfl
      · rw [strip]
        rfl
    | some rest =>
      obtain ⟨rfl, _⟩ := splitOnce_iff.mp split
      obtain rfl := eq_of_stripPrefix strip
      have inside : containsText "://" (left ++ (String.singleton ':' ++ ("//" ++ rest))) = true := by
        have chars : (left ++ (String.singleton ':' ++ ("//" ++ rest))).toList =
            left.toList ++ ("://".toList ++ rest.toList) := by simp
        rw [containsText, chars]
        exact occurs_between _ _
      cases plain.symm.trans inside

/-- `user@host:path` has no authority. -/
theorem hierarchical_scp (like : isScpLike url = true) : Uri.hierarchical url = none := by
  unfold isScpLike at like
  split at like
  · simp only [Bool.and_eq_true, Bool.not_eq_true'] at like
    exact hierarchical_none like.2
  · cases like

theorem hierarchical_known {scheme : String} (known : scheme ∈ ["https", "http", "ssh", "file"]) :
    Uri.hierarchical (scheme ++ "://" ++ rest) = some (scheme, rest) := by
  simp only [List.mem_cons, List.not_mem_nil, or_false] at known
  rcases known with rfl | rfl | rfl | rfl
  · exact Uri.hierarchical_append (by decide) (by decide) (forall_mem_of_all (by decide))
  · exact Uri.hierarchical_append (by decide) (by decide) (forall_mem_of_all (by decide))
  · exact Uri.hierarchical_append (by decide) (by decide) (forall_mem_of_all (by decide))
  · exact Uri.hierarchical_append (by decide) (by decide) (forall_mem_of_all (by decide))

theorem safe_iff {scheme : String} (parts : Uri.hierarchical url = some (scheme, rest))
    (password : NoPassword (Uri.authority rest) ↔ PlainUserinfo (Uri.authority rest))
    (host : kind = .httpLoopback → Free '?' (firstPart '/' rest) → Free '#' (firstPart '/' rest) →
      OnLoopback loopback (Uri.authority rest)) : SafeUrl loopback url kind ↔ PlainUrl loopback url kind := by
  constructor
  · rintro ⟨none, onLoopback⟩
    refine ⟨fun _ _ found => ?_, fun http => ?_⟩
    · cases parts.symm.trans found
      exact password.mp (none _ _ parts)
    · obtain ⟨_, _, found, reaches⟩ := onLoopback http
      exact ⟨_, _, found, .inr reaches⟩
  · rintro ⟨plain, ends⟩
    refine ⟨fun _ _ found => ?_, fun http => ?_⟩
    · cases parts.symm.trans found
      exact password.mpr (plain _ _ parts)
    · obtain ⟨_, _, found, early⟩ := ends http
      cases parts.symm.trans found
      rcases early with ⟨query, fragment⟩ | reaches
      · exact ⟨_, _, parts, host http query fragment⟩
      · exact ⟨_, _, parts, reaches⟩

/-- **A URL that is accepted** has no password, and stays on this machine if its transport is plain `http`, exactly
when no `:` stands behind an `@` in its user information and no `?` or `#` ends the authority early. -/
theorem validateUrl_safe_iff (known : ∀ h ∈ ["127.0.0.1", "localhost", "[::1]"], loopback h)
    (accepted : validateUrl url = .ok kind) : SafeUrl loopback url kind ↔ PlainUrl loopback url kind := by
  obtain admitted := admitted_of_validateUrl accepted
  cases admitted with
  | @https rest password =>
    exact safe_iff (hierarchical_known (by decide)) (noPassword_iff password) fun other => by cases other
  | @http rest password host =>
    refine safe_iff (hierarchical_known (by decide)) (noPassword_iff password) fun _ query fragment => ?_
    have whole : Uri.authority rest = firstPart '/' rest := by
      rw [← authority_firstPart]
      refine Uri.authority_of_free fun c mem => Bool.eq_false_iff.mpr fun ends => ?_
      rcases Uri.endsAuthority_iff.mp ends with rfl | rfl | rfl
      · exact free_firstPart mem
      · exact query mem
      · exact fragment mem
    rw [whole]
    exact onLoopback_of_hostOf known host
  | @ssh rest password =>
    exact safe_iff (hierarchical_known (by decide)) (noPassword_iff password) fun other => by cases other
  | @file path absolute =>
    have none : Uri.authority path = "" := by
      obtain ⟨cs, chars⟩ := List.head?_eq_some_iff.mp (of_decide_eq_true absolute)
      rw [Uri.authority, chars]
      rfl
    refine safe_iff (hierarchical_known (by decide)) ?_ fun other => by cases other
    rw [none]
    exact iff_of_true (fun u info => by cases info) fun u info => by cases info
  | scp like =>
    have none := hierarchical_scp like
    refine iff_of_true ⟨fun scheme rest found => ?_, fun other => by cases other⟩
      ⟨fun scheme rest found => ?_, fun other => by cases other⟩
    · cases none.symm.trans found
    · cases none.symm.trans found

theorem validateUrl_safe_local :
    SafeUrl (· ∈ ["127.0.0.1", "localhost", "[::1]"]) "http://git@localhost:8080/x" .httpLoopback := by
  have parts : Uri.hierarchical "http://git@localhost:8080/x" = some ("http", "git@localhost:8080/x") := by decide
  refine (validateUrl_safe_iff (fun _ => id) (Journal.ok_of_toOption (by decide))).mpr
    ⟨fun scheme rest found => ?_, fun _ => ⟨_, _, parts, .inl ⟨by decide, by decide⟩⟩⟩
  cases parts.symm.trans found
  intro u info x w split
  have user : Uri.userinfo (Uri.authority "git@localhost:8080/x") = some "git" := by decide
  cases user.symm.trans info
  have one : splitOnce '@' "git" = none := by decide
  cases one.symm.trans split

/-- Plain `http` to another machine is taken for plain `http` to this one. -/
theorem validateUrl_reaches_example :
    ¬ ∀ url kind, validateUrl url = .ok kind → SafeUrl (· ≠ "example.com") url kind := by
  intro safe
  obtain ⟨_, _, found, _, _, read, other⟩ :=
    (safe "http://example.com?@127.0.0.1/" .httpLoopback (Journal.ok_of_toOption (by decide))).loopback rfl
  have parts : Uri.hierarchical "http://example.com?@127.0.0.1/" = some ("http", "example.com?@127.0.0.1/") := by decide
  cases parts.symm.trans found
  have host : Uri.hostAndPort (Uri.hostport (Uri.authority "example.com?@127.0.0.1/")) = some ("example.com", none) := by
    decide
  cases host.symm.trans read
  exact other rfl

/-- A password behind the first `@` is not found. -/
theorem validateUrl_misses_password : ¬ ∀ url kind, validateUrl url = .ok kind → SafeUrl (fun _ => True) url kind := by
  intro safe
  have accepted : validateUrl "https://a@b:secret@example.com/x" = .ok .https := Journal.ok_of_toOption (by decide)
  have parts : Uri.hierarchical "https://a@b:secret@example.com/x" = some ("https", "a@b:secret@example.com/x") := by
    decide
  have user : Uri.userinfo (Uri.authority "a@b:secret@example.com/x") = some "a@b:secret" := by decide
  exact (safe _ _ accepted).noPassword _ _ parts _ user (by decide)

end Harpoon.Git
