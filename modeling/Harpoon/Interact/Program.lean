/-!
# Programs that ask

A program of this file computes, and from time to time asks its surroundings to do something and
waits for the answer. What it may ask is a signature: the operations, and the type of the answer
each one gets. A program is then a tree with one branch for every answer, so that a statement about
all of its branches is a statement about every way the surroundings can behave.

`Follows p h q` says that `p` asked the operations of the history `h` in that order, received the
answers `h` records, and has `q` left to do. A complete run ends in `done`; every history a
program follows, complete or not, is a place where the process can be stopped.
-/

namespace Harpoon.Interact

/-- What a program may ask, and the type of each answer. -/
structure Signature where
  Op : Type
  Answer : Op → Type

/-- A finished value, or one operation and what to do with its answer. -/
inductive Program (S : Signature) (α : Type) : Type where
  | done (value : α) : Program S α
  | ask (op : S.Op) (next : S.Answer op → Program S α) : Program S α

/-- An operation and the answer it got. -/
structure Event (S : Signature) where
  op : S.Op
  answer : S.Answer op

/-- What was asked and answered, oldest first. -/
abbrev History (S : Signature) := List (Event S)

namespace Program

variable {S : Signature} {α β γ : Type}

/-- Run `p`, then continue with its value. -/
def bind : Program S α → (α → Program S β) → Program S β
  | .done value, f => f value
  | .ask op next, f => .ask op fun answer => (next answer).bind f

instance : Monad (Program S) where
  pure := .done
  bind := bind

/-- Ask the operations of another signature in place of these. -/
def via {T : Signature} (asked : (op : S.Op) → Program T (S.Answer op)) : Program S α → Program T α
  | .done value => .done value
  | .ask op next => (asked op).bind fun answer => (next answer).via asked

/-- Ask one operation and return its answer. -/
def perform (op : S.Op) : Program S (S.Answer op) := .ask op .done

@[simp] theorem pure_eq (value : α) : (pure value : Program S α) = .done value := rfl

@[simp] theorem bind_eq (p : Program S α) (f : α → Program S β) : p >>= f = p.bind f := rfl

@[simp] theorem done_bind (value : α) (f : α → Program S β) : (Program.done value).bind f = f value :=
  rfl

@[simp] theorem ask_bind (op : S.Op) (next : S.Answer op → Program S α) (f : α → Program S β) :
    (Program.ask op next).bind f = .ask op fun answer => (next answer).bind f := rfl

@[simp] theorem bind_done (p : Program S α) : p.bind .done = p := by
  induction p with
  | done value => rfl
  | ask op next ih => simp only [ask_bind, ih]

theorem bind_assoc (p : Program S α) (f : α → Program S β) (g : β → Program S γ) :
    (p.bind f).bind g = p.bind fun value => (f value).bind g := by
  induction p with
  | done value => rfl
  | ask op next ih => simp only [ask_bind, ih]

instance : LawfulMonad (Program S) :=
  LawfulMonad.mk' _ bind_done (fun _ _ => rfl) bind_assoc

/-- `p` asked what `h` records, was answered as `h` records, and has `q` left. -/
inductive Follows : Program S α → History S → Program S α → Prop where
  | here (p : Program S α) : Follows p [] p
  | step {op : S.Op} {next : S.Answer op → Program S α} {h : History S} {q : Program S α}
      (answer : S.Answer op) (rest : Follows (next answer) h q) :
      Follows (.ask op next) (⟨op, answer⟩ :: h) q

theorem Follows.trans {p q r : Program S α} {h k : History S} (first : Follows p h q)
    (second : Follows q k r) : Follows p (h ++ k) r := by
  induction first with
  | here p => exact second
  | step answer _ ih => exact .step answer (ih second)

/-- What `p` follows, it follows with more to do. -/
theorem Follows.bind {p q : Program S α} {h : History S} (follows : Follows p h q)
    (f : α → Program S β) : Follows (p.bind f) h (q.bind f) := by
  induction follows with
  | here p => exact .here _
  | step answer _ ih => exact .step answer ih

/-- Every start of a history a program follows is one it follows. -/
theorem Follows.take {p q : Program S α} {h : History S} (follows : Follows p h q) (n : Nat) :
    ∃ r, Follows p (h.take n) r := by
  induction follows generalizing n with
  | here p => exact ⟨p, by rw [List.take_nil]; exact .here p⟩
  | @step op next h q answer _ ih =>
    cases n with
    | zero => exact ⟨.ask op next, .here _⟩
    | succ n =>
      obtain ⟨r, rest⟩ := ih n
      exact ⟨r, .step answer rest⟩

/-- At each event of a history, the program was about to ask its operation. -/
theorem Follows.asked {p q : Program S α} {h k : History S} {e : Event S}
    (follows : Follows p (h ++ e :: k) q) :
    ∃ next, Follows p h (.ask e.op next) ∧ Follows (next e.answer) k q := by
  induction h generalizing p with
  | nil =>
    cases follows with
    | step answer rest => exact ⟨_, .here _, rest⟩
  | cons _ h ih =>
    cases follows with
    | step answer rest =>
      obtain ⟨next, asked, left⟩ := ih rest
      exact ⟨next, .step answer asked, left⟩

/-- A program that finished follows no further event. -/
theorem Follows.done_inv {value : α} {h : History S} {q : Program S α}
    (f : Follows (.done value) h q) : h = [] ∧ q = .done value := by
  cases f; exact ⟨rfl, rfl⟩

/-- What `p` has left once it followed the history, if it asks what the history says. -/
def follow [DecidableEq S.Op] : Program S α → History S → Option (Program S α)
  | p, [] => some p
  | .done _, _ :: _ => none
  | .ask op next, e :: h => if same : e.op = op then (next (same ▸ e.answer)).follow h else none

theorem follow_follows [DecidableEq S.Op] {p q : Program S α} {h : History S} (left : p.follow h = some q) :
    Follows p h q := by
  induction h generalizing p with
  | nil =>
    cases p <;> cases left <;> exact .here _
  | cons e h ih =>
    cases p with
    | done value => cases left
    | ask op next =>
      rw [follow] at left
      split at left
      · next same =>
        subst same
        exact .step e.answer (ih left)
      · cases left

/-- The run of `p` in surroundings that answer each operation by a fixed rule: the history and the
value. -/
def play (answers : (op : S.Op) → S.Answer op) : Program S α → History S × α
  | .done value => ([], value)
  | .ask op next =>
    let rest := (next (answers op)).play answers
    (⟨op, answers op⟩ :: rest.1, rest.2)

theorem play_follows (answers : (op : S.Op) → S.Answer op) (p : Program S α) :
    Follows p (p.play answers).1 (.done (p.play answers).2) := by
  induction p with
  | done value => exact .here _
  | ask op next ih => exact .step _ (ih (answers op))

/-- A run whose value is a pair, with the first part of the value known. -/
theorem play_follows_pair (answers : (op : S.Op) → S.Answer op) (p : Program S (α × β)) {a : α}
    (out : (p.play answers).2.1 = a) :
    Follows p (p.play answers).1 (.done (a, (p.play answers).2.2)) := by
  have run := play_follows answers p
  -- Nothing of the run is evaluated here.
  generalize p.play answers = played at out run ⊢
  subst out
  exact run

/-- Each event of that run got the answer of the rule. -/
theorem play_answers {answers : (op : S.Op) → S.Answer op} {p : Program S α} {e : Event S}
    (mem : e ∈ (p.play answers).1) : e.answer = answers e.op := by
  induction p with
  | done value => cases mem
  | ask op next ih =>
    rcases List.mem_cons.mp mem with rfl | mem
    · rfl
    · exact ih _ mem

/-- What was asked in that run determines its history. -/
theorem play_history (answers : (op : S.Op) → S.Answer op) (p : Program S α) :
    (p.play answers).1 = ((p.play answers).1.map Event.op).map fun op => ⟨op, answers op⟩ := by
  rw [List.map_map]
  refine (List.map_id' _).symm.trans (List.map_congr_left fun e mem => ?_)
  show e = ⟨e.op, answers e.op⟩
  rw [← play_answers mem]

/-- The same run, told by what was asked. -/
theorem play_asked {answers : (op : S.Op) → S.Answer op} {p : Program S α} {ops : List S.Op}
    (asked : (p.play answers).1.map Event.op = ops) :
    Follows p (ops.map fun op => ⟨op, answers op⟩) (.done (p.play answers).2) := by
  have follows := play_follows answers p
  rwa [play_history, asked] at follows

end Program

end Harpoon.Interact
