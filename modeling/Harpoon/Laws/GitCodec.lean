import Harpoon.Journal.Git
import Harpoon.Laws.Credentials
import Harpoon.Laws.ControlCodec

/-!
# Git records and their lines

Every record that the registry's commands, the poller and a deployment write is read back from its line, with one
exception: the delivery identity `-`, which its field reads as "none".
-/

namespace Harpoon.Git

open Deploy Wire Journal Control

/-! ## Fields -/

section

variable {what why v : String} {x : RepoRec} {fs : List String}

theorem token_chars (accepted : token what v = .ok ()) : ∀ c ∈ v.toList, Config.tokenChar c = true := by
  unfold token at accepted
  split at accepted
  · cases accepted
  · split at accepted
    · cases accepted
    next none =>
      intro c mem
      simpa using List.find?_eq_none.mp none c mem

theorem token_free {sep : Char} (accepted : token what v = .ok ()) (other : Config.tokenChar sep = false) :
    Free sep v := by
  intro mem
  cases other.symm.trans (token_chars accepted sep mem)

theorem token_plain (accepted : token what v = .ok ()) : Plain v := by
  have foreign : ∀ {sep : Char}, Config.tokenChar sep = false → Free sep v := fun other => token_free accepted other
  exact ⟨foreign (by decide), foreign (by decide)⟩

theorem isCommit_plain (commit : isCommit v = true) : Plain v := by
  have chars := List.all_eq_true.mp (Bool.and_eq_true _ _ ▸ commit : _ ∧ _).2
  exact ⟨fun mem => absurd (chars _ mem) (by decide), fun mem => absurd (chars _ mem) (by decide)⟩

theorem hexText_ne_dash (s : String) : hexText s ≠ "-" := by
  intro same
  have free : Free '-' (hexText s) := hexText_free (by decide) s
  rw [same] at free
  exact free (by decide)

theorem unopt_opt (v : Option String) : unopt (opt v) = .ok v := by
  cases v with
  | none => rfl
  | some s =>
    rw [unopt, opt, Option.map_some, Option.getD_some, if_neg (hexText_ne_dash s), unhexText_hexText]
    rfl

theorem decodeFilters_filterField (fs : List String) : decodeFilters (filterField fs) = .ok fs := by
  rw [decodeFilters, filterField]
  by_cases empty : fs = []
  · rw [if_pos empty, if_pos rfl, empty]
  · have free : ∀ t ∈ fs.map hexText, Free ',' t := by
      intro t mem
      obtain ⟨f, _, rfl⟩ := List.mem_map.mp mem
      exact hexText_free (by decide) f
    have list := fields_joined free (by simpa using empty)
    have other : joined ',' (fs.map hexText) ≠ "-" := by
      intro same
      rw [same] at list
      obtain ⟨f, _, hexed⟩ := List.mem_map.mp (list ▸ List.mem_singleton.mpr rfl : "-" ∈ fs.map hexText)
      exact hexText_ne_dash f hexed
    rw [if_neg empty, if_neg other, list]
    exact mapM_map_ok fun f _ => by rw [unhexText_hexText]; rfl

theorem decodeWebhook_asStr (w : Option WebhookKind) : decodeWebhook ((w.map WebhookKind.asStr).getD "-") = .ok w := by
  cases w with
  | none => rfl
  | some w => cases w <;> rfl

theorem CredKind.parse_asStr (c : CredKind) : CredKind.parse c.asStr = .ok c := by cases c <;> rfl

theorem SelectorKind.parse_asStr (s : SelectorKind) : SelectorKind.parse s.asStr = .ok s := by cases s <;> rfl

end

/-! ## Records -/

/-- What is read for a record: a delivery that is called `-` is not there. -/
def GitRecord.readBack : GitRecord → GitRecord
  | .source s => .source { s with delivery := s.delivery.filter fun d => d ≠ "-" }
  | r => r

/-- The texts of a record pass the decoder's checks, and stay in their fields. -/
def GitRecord.Reads : GitRecord → Prop
  | .repo x => ∃ kind, x.validate = .ok kind
  | .removed x => x.validate = .ok ()
  | .seen s => checkName s.repo = .ok () ∧ isCommit s.commit = true
  | .source s => checkName s.repo = .ok () ∧ isCommit s.commit = true ∧ (∃ kind, validateUrl s.url = .ok kind) ∧
      Plain s.trigger ∧ ∀ d, s.delivery = some d → Plain d

/-- The times of a record are within the numbers that a field holds. -/
def GitRecord.Timely : GitRecord → Prop
  | .repo x => x.atMs ≤ maxNumber
  | .removed x => x.registration ≤ maxNumber ∧ x.atMs ≤ maxNumber
  | .seen s => s.atMs ≤ maxNumber
  | .source s => s.atMs ≤ maxNumber

section

variable {r : GitRecord}

theorem port_repr (p : UInt16) : parseUnsigned 10 0xFFFF p.toNat.repr = some p.toNat :=
  parseUnsigned_repr (Nat.le_of_lt_succ p.toNat_lt)

theorem decode_recordFields (reads : r.Reads) (timely : r.Timely) : decode (recordFields r) = .ok r.readBack := by
  have texts : ∀ {why s : String}, need why (unhexText (hexText s)) = .ok s := by
    intro why s
    rw [unhexText_hexText]
    rfl
  cases r with
  | repo x =>
    obtain ⟨kind, valid⟩ := reads
    have body : decodeRepo ((repoFields x).drop 2) = .ok x := by
      simp only [repoFields, List.drop, decodeRepo, decodeFilters_filterField, texts, unopt_opt, CredKind.parse_asStr,
        decodeWebhook_asStr, readApp, readId_asStr, port_repr, need_some, number_repr (n := x.atMs) timely,
        bind, Except.bind, UInt16.ofNat_toNat]
      rw [valid]
      rfl
    exact (congrArg (GitRecord.repo <$> ·) body :)
  | removed x =>
    have body : decodeRemoved ((removedFields x).drop 2) = .ok x := by
      simp only [removedFields, List.drop, decodeRemoved, readApp, readId_asStr, texts, CredKind.parse_asStr,
        number_repr (n := x.registration) timely.1, number_repr (n := x.atMs) timely.2, bind, Except.bind]
      rw [show x.validate = .ok () from reads]
      rfl
    exact (congrArg (GitRecord.removed <$> ·) body :)
  | seen s =>
    have body : decodeSeen ((seenFields s).drop 2) = .ok s := by
      simp only [seenFields, List.drop, decodeSeen, reads.1, checkCommit, reads.2, texts, number_repr (n := s.atMs) timely,
        bind, Except.bind, if_true]
      rfl
    exact (congrArg (GitRecord.seen <$> ·) body :)
  | source s =>
    obtain ⟨name, commit, ⟨kind, url⟩, _⟩ := reads
    have dash : (if s.delivery.getD "-" = "-" then none else some (s.delivery.getD "-")) =
        s.delivery.filter fun d => d ≠ "-" := by
      cases s.delivery with
      | none => rfl
      | some d => by_cases same : d = "-" <;> simp [same, Option.filter]
    have body : decodeSource ((sourceFields s).drop 2) = .ok { s with delivery := s.delivery.filter fun d => d ≠ "-" } := by
      simp only [sourceFields, List.drop, decodeSource, name, checkCommit, commit, texts, url, readId_asStr,
        SelectorKind.parse_asStr, number_repr (n := s.atMs) timely, bind, Except.bind, if_true, dash]
      rfl
    exact (congrArg (GitRecord.source <$> ·) body :)

/-- No field of a record contains a tab or a line break. -/
theorem plain_recordFields (reads : r.Reads) : ∀ t ∈ recordFields r, Plain t := by
  have words : ∀ t ∈ ["gitrepo", "gitdrop", "gitseen", "gitsrc", "1", "-"] ++
      [CredKind.none, .token, .sshKey].map CredKind.asStr ++ [WebhookKind.gitHub, .gitLab].map WebhookKind.asStr ++
      [SelectorKind.branch, .tag, .commit].map SelectorKind.asStr, Plain t := by decide
  have optional : ∀ v, Plain (opt v) := by
    intro v
    cases v with
    | none => exact words _ (by decide)
    | some s => exact .hexText
  have cred : ∀ c : CredKind, Plain c.asStr := fun c => words _ (by cases c <;> decide)
  have selector : ∀ s : SelectorKind, Plain s.asStr := fun s => words _ (by cases s <;> decide)
  have webhook : ∀ w : Option WebhookKind, Plain ((w.map WebhookKind.asStr).getD "-") := by
    intro w
    cases w with
    | none => exact words _ (by decide)
    | some w => exact words _ (by cases w <;> decide)
  have filters : ∀ fs, Plain (filterField fs) := by
    intro fs
    unfold filterField
    split
    · exact words _ (by decide)
    · refine .joined (by decide) fun t mem => ?_
      obtain ⟨f, _, rfl⟩ := List.mem_map.mp mem
      exact .hexText
  cases r with
  | repo x =>
    obtain ⟨kind, valid⟩ := reads
    obtain ⟨_, name, _⟩ := bind_ok valid
    simp only [recordFields, repoFields, List.forall_mem_cons, List.not_mem_nil, false_implies, implies_true, and_true]
    exact ⟨words _ (by decide), words _ (by decide), token_plain name, .hexText, optional _, cred _, optional _, webhook _,
      .asStr, optional _, optional _, .hexText, filters _, .repr, optional _, optional _, optional _, optional _, .repr⟩
  | removed x =>
    obtain ⟨_, name, _⟩ := bind_ok reads
    simp only [recordFields, removedFields, List.forall_mem_cons, List.not_mem_nil, false_implies, implies_true, and_true]
    exact ⟨words _ (by decide), words _ (by decide), token_plain name, .asStr, .repr, .hexText, cred _, .repr⟩
  | seen s =>
    simp only [recordFields, seenFields, List.forall_mem_cons, List.not_mem_nil, false_implies, implies_true, and_true]
    exact ⟨words _ (by decide), words _ (by decide), token_plain reads.1, .hexText, isCommit_plain reads.2, .repr⟩
  | source s =>
    obtain ⟨name, commit, _, trigger, delivery⟩ := reads
    have identity : Plain (s.delivery.getD "-") := by
      cases found : s.delivery with
      | none => exact words _ (by decide)
      | some d => exact delivery d found
    simp only [recordFields, sourceFields, List.forall_mem_cons, List.not_mem_nil, false_implies, implies_true, and_true]
    exact ⟨words _ (by decide), words _ (by decide), .asStr, token_plain name, .hexText, selector _, .hexText,
      isCommit_plain commit, trigger, identity, .repr⟩

theorem decodeLine_encode {β : Type} {others : List String → Except String β} (reads : r.Reads) (timely : r.Timely) :
    decodeLine (decodeOther others) (encode r) = .ok (.other (.inl r.readBack)) := by
  have some : recordFields r ≠ [] := by cases r <;> exact List.cons_ne_nil _ _
  have list := fields_plain (plain_recordFields reads) some
  rw [decodeLine, encode, unframe_frame]
  simp only [bind, Except.bind, checked_frame, list, decodeOther, decode_recordFields reads timely]
  cases r <;> rfl

end

end Harpoon.Git
