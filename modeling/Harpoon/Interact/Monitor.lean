import Harpoon.Interact.Program

/-!
# Monitors, and what they let a program do

A monitor watches a program from outside: it keeps a summary of the history so far (`see` says how
one event changes it), and a rule says which operation may be asked at a given summary. A program
**obeys** the rule when every operation on every branch is allowed where it is asked; a
postcondition then speaks of the value and of the summary at the end.

`Obeys` is the weakest precondition of such a program, and its rules are the usual ones: `bind`
composes, and a stronger postcondition or rule implies a weaker one. `Obeys.follows` is what it is
for: at any point of any history the program can follow, what is left still obeys the rule, from the
summary that history leaves. `Lawful.invariant` is the run lemma: what one allowed event preserves,
a whole history preserves, wherever it is cut short.
-/

namespace Harpoon.Interact

variable {S : Signature} {σ τ α β : Type}

/-- The summary a history leaves. -/
abbrev History.seen (see : σ → Event S → σ) (s : σ) (h : History S) : σ := h.foldl see s

/-- Every event of the history was allowed at the summary before it. -/
def Lawful (see : σ → Event S → σ) (rule : σ → S.Op → Prop) : σ → History S → Prop
  | _, [] => True
  | s, e :: h => rule s e.op ∧ Lawful see rule (see s e) h

instance Lawful.decidable (see : σ → Event S → σ) (rule : σ → S.Op → Prop)
    [∀ s op, Decidable (rule s op)] : (s : σ) → (h : History S) → Decidable (Lawful see rule s h)
  | _, [] => .isTrue trivial
  | s, e :: h =>
    have := Lawful.decidable see rule (see s e) h
    inferInstanceAs (Decidable (rule s e.op ∧ Lawful see rule (see s e) h))

/-- Every operation `p` asks is allowed where it asks it, and `p` ends with `post`. -/
def Program.Obeys (see : σ → Event S → σ) (rule : σ → S.Op → Prop) (post : α → σ → Prop) :
    Program S α → σ → Prop
  | .done value, s => post value s
  | .ask op next, s => rule s op ∧ ∀ answer, (next answer).Obeys see rule post (see s ⟨op, answer⟩)

section Obeys

variable {see : σ → Event S → σ} {rule rule' : σ → S.Op → Prop} {post post' : α → σ → Prop}

open Program

/-- Weakening of the postcondition and of the rule. -/
theorem Program.Obeys.mono {p : Program S α} {s : σ} (h : p.Obeys see rule post s)
    (hrule : ∀ t op, rule t op → rule' t op) (hpost : ∀ value t, post value t → post' value t) :
    p.Obeys see rule' post' s := by
  induction p generalizing s with
  | done value => exact hpost value s h
  | ask op next ih => exact ⟨hrule s op h.1, fun answer => ih answer (h.2 answer)⟩

/-- What is proved apart holds together. -/
theorem Program.Obeys.and {p : Program S α} {s : σ} (h : p.Obeys see rule post s)
    (h' : p.Obeys see rule' post' s) :
    p.Obeys see (fun t op => rule t op ∧ rule' t op) (fun value t => post value t ∧ post' value t) s := by
  induction p generalizing s with
  | done value => exact ⟨h, h'⟩
  | ask op next ih => exact ⟨⟨h.1, h'.1⟩, fun answer => ih answer (h.2 answer) (h'.2 answer)⟩

/-- The rule of sequence. -/
theorem Program.obeys_bind {p : Program S α} {f : α → Program S β} {post : β → σ → Prop} {s : σ} :
    (p.bind f).Obeys see rule post s ↔
      p.Obeys see rule (fun value t => (f value).Obeys see rule post t) s := by
  induction p generalizing s with
  | done value => exact Iff.rfl
  | ask op next ih => simp only [ask_bind, Obeys, ih]

/-- A program that asks other operations in place of its own obeys the rule for these when it obeys one that
each of them carries out. -/
theorem Program.Obeys.via {T : Signature} {asked : (op : S.Op) → Program T (S.Answer op)} {see' : σ → Event T → σ}
    {allowed : σ → T.Op → Prop} {p : Program S α} {s : σ}
    (each : ∀ op s, rule s op → (asked op).Obeys see' allowed (fun answer t => t = see s ⟨op, answer⟩) s)
    (obeys : p.Obeys see rule post s) : (p.via asked).Obeys see' allowed post s := by
  induction p generalizing s with
  | done value => exact obeys
  | ask op next ih =>
    refine Program.obeys_bind.mpr ((each op s obeys.1).mono (fun _ _ => id) ?_)
    rintro answer t rfl
    exact ih answer (obeys.2 answer)

/-- What is left of a program that obeys the rule obeys it, from the summary of the history so far;
and that history was lawful. -/
theorem Program.Obeys.follows {p q : Program S α} {h : History S} {s : σ}
    (obeys : p.Obeys see rule post s) (follows : Follows p h q) :
    q.Obeys see rule post (h.seen see s) ∧ Lawful see rule s h := by
  induction follows generalizing s with
  | here p => exact ⟨obeys, trivial⟩
  | step answer _ ih =>
    obtain ⟨left, lawful⟩ := ih (obeys.2 answer)
    exact ⟨left, obeys.1, lawful⟩

/-- The operation a program asks next is allowed. -/
theorem Program.Obeys.allowed {p : Program S α} {op : S.Op} {next : S.Answer op → Program S α}
    {h : History S} {s : σ} (obeys : p.Obeys see rule post s) (follows : Follows p h (.ask op next)) :
    rule (h.seen see s) op :=
  (obeys.follows follows).1.1

/-- A program that ended, ended with the postcondition. -/
theorem Program.Obeys.ended {p : Program S α} {value : α} {h : History S} {s : σ}
    (obeys : p.Obeys see rule post s) (follows : Follows p h (.done value)) :
    post value (h.seen see s) :=
  (obeys.follows follows).1

/-- A program that is answered comes to an end. -/
theorem Program.ends (answers : ∀ op, Nonempty (S.Answer op)) (p : Program S α) :
    ∃ h value, Program.Follows p h (.done value) := by
  induction p with
  | done value => exact ⟨[], value, .here _⟩
  | ask op next ih =>
    obtain ⟨answer⟩ := answers op
    obtain ⟨h, value, follows⟩ := ih answer
    exact ⟨_, value, .step answer follows⟩

/-- What holds at every end, and was so before if it is so later, holds of every history. -/
theorem Program.Obeys.throughout {p q : Program S α} {s : σ} {I : σ → Prop} {h : History S}
    (answers : ∀ op, Nonempty (S.Answer op)) (obeys : p.Obeys see rule post s) (ended : ∀ v s, post v s → I s)
    (before : ∀ s e, I (see s e) → I s) (follows : Program.Follows p h q) : I (h.seen see s) := by
  have back : ∀ (k : History S) s, I (k.seen see s) → I s := by
    intro k
    induction k with
    | nil => exact fun _ => id
    | cons e k ih => exact fun s later => before s e (ih _ later)
  obtain ⟨k, value, rest⟩ := q.ends answers
  have left := (obeys.follows follows).1
  exact back k _ (ended _ _ (left.ended rest))

end Obeys

section Lawful

variable {see : σ → Event S → σ} {rule : σ → S.Op → Prop}

/-- The run lemma: an invariant that every allowed event preserves holds after every lawful
history. -/
theorem Lawful.invariant {I : σ → Prop} (step : ∀ s e, I s → rule s e.op → I (see s e))
    {h : History S} {s : σ} (start : I s) (lawful : Lawful see rule s h) : I (h.seen see s) := by
  induction h generalizing s with
  | nil => exact start
  | cons e h ih => exact ih (step s e start lawful.1) lawful.2

/-- The start of a lawful history is lawful. -/
theorem Lawful.left {h k : History S} {s : σ} (lawful : Lawful see rule s (h ++ k)) :
    Lawful see rule s h := by
  induction h generalizing s with
  | nil => trivial
  | cons e h ih => exact ⟨lawful.1, ih lawful.2⟩

/-- At each event of a lawful history the rule allowed it, at the summary of what came before. -/
theorem Lawful.at {h k : History S} {e : Event S} {s : σ}
    (lawful : Lawful see rule s (h ++ e :: k)) : rule (h.seen see s) e.op := by
  induction h generalizing s with
  | nil => exact lawful.1
  | cons _ _ ih => exact ih lawful.2

/-- A history is lawful when each of its events was allowed where it came. -/
theorem lawful_iff {h : History S} {s : σ} :
    Lawful see rule s h ↔
      ∀ before e rest, h = before ++ e :: rest → rule (History.seen see s before) e.op := by
  constructor
  · rintro lawful before e rest rfl
    exact lawful.at
  · intro allowed
    induction h generalizing s with
    | nil => trivial
    | cons e h ih =>
      refine ⟨allowed [] e h rfl, ih fun before e' rest split => ?_⟩
      exact allowed (e :: before) e' rest (congrArg (e :: ·) split)

/-- The monitor that only remembers what happened. -/
def remember (h : History S) (e : Event S) : History S := h ++ [e]

theorem seen_remember {h k : History S} : h.seen remember k = k ++ h := by
  induction h generalizing k with
  | nil => exact (List.append_nil k).symm
  | cons e h ih => exact ih.trans (List.append_assoc k [e] h)

end Lawful

/-! ## Simulation -/

section Simulation

variable {see : σ → Event S → σ} {rule : σ → S.Op → Prop} {see' : τ → Event S → τ}
  {rule' : τ → S.Op → Prop} {J : σ → τ → Prop} {post : α → σ → Prop}

/-- Where the first monitor allows an operation, so does the second, and the event keeps their
summaries related. -/
structure Simulates (see : σ → Event S → σ) (rule : σ → S.Op → Prop) (see' : τ → Event S → τ)
    (rule' : τ → S.Op → Prop) (J : σ → τ → Prop) : Prop where
  allowed : ∀ s t op, J s t → rule s op → rule' t op
  step : ∀ s t e, J s t → rule s e.op → J (see s e) (see' t e)

/-- What a program does under one monitor, it does under every monitor that simulates it. -/
theorem Program.Obeys.simulate {p : Program S α} {s : σ} {t : τ} (obeys : p.Obeys see rule post s)
    (sim : Simulates see rule see' rule' J) (start : J s t) :
    p.Obeys see' rule' (fun value t => ∃ s, J s t ∧ post value s) t := by
  induction p generalizing s t with
  | done value => exact ⟨s, start, obeys⟩
  | ask op next ih =>
    refine ⟨sim.allowed s t op start obeys.1, fun answer => ih answer (obeys.2 answer) ?_⟩
    exact sim.step s t ⟨op, answer⟩ start obeys.1

end Simulation

end Harpoon.Interact
