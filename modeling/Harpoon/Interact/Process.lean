import Harpoon.Interact.Monitor

/-!
# Processes: programs with a state and errors

Imperative code keeps a state of its own while it asks, and may give up with an error, which leaves
the state as it then stands. `Process S ρ ε α` is such code over the signature `S`: state `ρ`, errors
`ε`, result `α`.

`Meets x post fail r s` is its weakest precondition under a monitor: started in the state `r` at the
summary `s`, the process obeys the rule on every branch, ends normally only with `post`, and gives up
only with `fail`. There is one rule for each way to build a process, so a proof follows the text of
the code it is about.
-/

namespace Harpoon.Interact

/-- Code over `S` with a state `ρ` that gives up with an `ε`. -/
abbrev Process (S : Signature) (ρ ε α : Type) := ExceptT ε (StateT ρ (Program S)) α

namespace Process

variable {S : Signature} {ρ θ ε σ τ α β : Type}

/-- The whole of `x` as a program: from a state, the outcome and the state it leaves. -/
def toProgram (x : Process S ρ ε α) (r : ρ) : Program S (Except ε α × ρ) := (ExceptT.run x).run r

/-- Ask one operation. -/
def perform (op : S.Op) : Process S ρ ε (S.Answer op) :=
  ExceptT.lift (StateT.lift (Program.perform op))

/-- Run `x` with errors returned to the caller instead of ending the code. -/
def attempt (x : Process S ρ ε α) {δ : Type} : Process S ρ δ (Except ε α) :=
  ExceptT.lift (ExceptT.run x)

/-- Run `x` from a state of its own: the outcome, and the state it leaves. -/
def embed {δ : Type} (x : Process S θ δ α) (t : θ) : Process S ρ ε (Except δ α × θ) :=
  ExceptT.mk fun r => (x.toProgram t).bind fun out => .done (.ok out, r)

/-- Run `x` on one part of the state. -/
def zoom (part : ρ → θ) (put : θ → ρ → ρ) (x : Process S θ ε α) : Process S ρ ε α :=
  ExceptT.mk fun r => (x.toProgram (part r)).bind fun out => .done (out.1, put out.2 r)

/-- Fail with the error of an `Except`, or go on with its value. -/
def ofExcept {δ : Type} (wrap : δ → ε) : Except δ α → Process S ρ ε α
  | .ok value => pure value
  | .error e => throw (wrap e)

/-- Ask the operations of another signature in place of these. -/
def via {T : Signature} (asked : (op : S.Op) → Program T (S.Answer op)) (x : Process S ρ ε α) : Process T ρ ε α :=
  ExceptT.mk fun r => (x.toProgram r).via asked

theorem toProgram_bind (x : Process S ρ ε α) (f : α → Process S ρ ε β) (r : ρ) :
    (x >>= f).toProgram r = (x.toProgram r).bind fun out =>
      match out.1 with
      | .ok value => (f value).toProgram out.2
      | .error e => .done (.error e, out.2) := by
  simp only [toProgram, ExceptT.run_bind, StateT.run_bind, Program.bind_eq]
  congr 1
  funext out
  obtain ⟨⟨e⟩ | ⟨value⟩, t⟩ := out <;> rfl

/-- The weakest precondition of a process under a monitor. -/
def Meets (see : σ → Event S → σ) (rule : σ → S.Op → Prop) (x : Process S ρ ε α)
    (post : α → ρ → σ → Prop) (fail : ε → ρ → σ → Prop) (r : ρ) (s : σ) : Prop :=
  (x.toProgram r).Obeys see rule
    (fun out t => match out.1 with
      | .ok value => post value out.2 t
      | .error e => fail e out.2 t) s

section Rules

variable {see : σ → Event S → σ} {rule : σ → S.Op → Prop} {post post' : α → ρ → σ → Prop}
  {fail fail' : ε → ρ → σ → Prop} {r : ρ} {s : σ}

theorem meets_pure {value : α} :
    Meets see rule (pure value : Process S ρ ε α) post fail r s ↔ post value r s := Iff.rfl

theorem meets_throw {e : ε} :
    Meets see rule (throw e : Process S ρ ε α) post fail r s ↔ fail e r s := Iff.rfl

theorem meets_get {post : ρ → ρ → σ → Prop} :
    Meets see rule (get : Process S ρ ε ρ) post fail r s ↔ post r r s := Iff.rfl

theorem meets_set {post : PUnit → ρ → σ → Prop} {t : ρ} :
    Meets see rule (set t : Process S ρ ε PUnit) post fail r s ↔ post ⟨⟩ t s := Iff.rfl

theorem meets_modify {post : PUnit → ρ → σ → Prop} {f : ρ → ρ} :
    Meets see rule (modify f : Process S ρ ε PUnit) post fail r s ↔ post ⟨⟩ (f r) s := Iff.rfl

theorem meets_perform {op : S.Op} {post : S.Answer op → ρ → σ → Prop} :
    Meets see rule (perform op : Process S ρ ε (S.Answer op)) post fail r s ↔
      rule s op ∧ ∀ answer, post answer r (see s ⟨op, answer⟩) := Iff.rfl

/-- The rule of sequence. -/
theorem meets_bind {x : Process S ρ ε α} {f : α → Process S ρ ε β} {post : β → ρ → σ → Prop} :
    Meets see rule (x >>= f) post fail r s ↔
      Meets see rule x (fun value t u => Meets see rule (f value) post fail t u) fail r s := by
  unfold Meets
  rw [toProgram_bind, Program.obeys_bind]
  refine ⟨fun h => h.mono (fun _ _ => id) ?_, fun h => h.mono (fun _ _ => id) ?_⟩ <;>
    · rintro ⟨⟨e⟩ | ⟨value⟩, t⟩ u hu <;> exact hu

theorem meets_map {x : Process S ρ ε α} {f : α → β} {post : β → ρ → σ → Prop} :
    Meets see rule (f <$> x) post fail r s ↔
      Meets see rule x (fun value t u => post (f value) t u) fail r s := by
  rw [← bind_pure_comp, meets_bind]
  exact Iff.rfl

theorem meets_attempt {δ : Type} {x : Process S ρ ε α} {post : Except ε α → ρ → σ → Prop}
    {fail : δ → ρ → σ → Prop} :
    Meets see rule (attempt x : Process S ρ δ (Except ε α)) post fail r s ↔
      Meets see rule x (fun value => post (.ok value)) (fun e => post (.error e)) r s := by
  have run_attempt : (attempt x : Process S ρ δ (Except ε α)).toProgram r =
      (x.toProgram r).bind fun out => .done (.ok out.1, out.2) := rfl
  unfold Meets
  rw [run_attempt, Program.obeys_bind]
  refine ⟨fun h => h.mono (fun _ _ => id) ?_, fun h => h.mono (fun _ _ => id) ?_⟩ <;>
    · rintro ⟨⟨e⟩ | ⟨value⟩, t⟩ u hu <;> exact hu

theorem meets_zoom {part : ρ → θ} {put : θ → ρ → ρ} {x : Process S θ ε α} :
    Meets see rule (zoom part put x) post fail r s ↔
      Meets see rule x (fun value t => post value (put t r)) (fun e t => fail e (put t r))
        (part r) s := by
  have run_zoom : (zoom part put x).toProgram r =
      (x.toProgram (part r)).bind fun out => .done (out.1, put out.2 r) := rfl
  unfold Meets
  rw [run_zoom, Program.obeys_bind]
  refine ⟨fun h => h.mono (fun _ _ => id) ?_, fun h => h.mono (fun _ _ => id) ?_⟩ <;>
    · rintro ⟨⟨e⟩ | ⟨value⟩, t⟩ u hu <;> exact hu

theorem meets_embed {δ : Type} {x : Process S θ δ α} {t : θ}
    {post : Except δ α × θ → ρ → σ → Prop} :
    Meets see rule (embed x t : Process S ρ ε (Except δ α × θ)) post fail r s ↔
      Meets see rule x (fun value u => post (.ok value, u) r) (fun e u => post (.error e, u) r) t s := by
  have run_embed : (embed x t : Process S ρ ε (Except δ α × θ)).toProgram r =
      (x.toProgram t).bind fun out => .done (.ok out, r) := rfl
  unfold Meets
  rw [run_embed, Program.obeys_bind]
  refine ⟨fun h => h.mono (fun _ _ => id) ?_, fun h => h.mono (fun _ _ => id) ?_⟩ <;>
    · rintro ⟨⟨e⟩ | ⟨value⟩, t⟩ u hu <;> exact hu

/-- Code that asks other operations in place of its own. -/
theorem Meets.via {T : Signature} {asked : (op : S.Op) → Program T (S.Answer op)} {see' : σ → Event T → σ}
    {allowed : σ → T.Op → Prop} {x : Process S ρ ε α}
    (each : ∀ op s, rule s op → (asked op).Obeys see' allowed (fun answer t => t = see s ⟨op, answer⟩) s)
    (meets : Meets see rule x post fail r s) : Meets see' allowed (via asked x) post fail r s :=
  Program.Obeys.via each meets

theorem meets_ofExcept {δ : Type} {wrap : δ → ε} {x : Except δ α}
    (ok : ∀ value, x = .ok value → post value r s) (error : ∀ e, x = .error e → fail (wrap e) r s) :
    Meets see rule (ofExcept wrap x : Process S ρ ε α) post fail r s := by
  cases x with
  | ok value => exact ok value rfl
  | error e => exact error e rfl

/-- Weakening of the rule. -/
theorem Meets.under {rule' : σ → S.Op → Prop} {x : Process S ρ ε α} (h : Meets see rule x post fail r s)
    (hrule : ∀ t op, rule t op → rule' t op) : Meets see rule' x post fail r s :=
  Program.Obeys.mono h hrule fun _ _ => id

/-- Weakening of both postconditions. -/
theorem Meets.mono {x : Process S ρ ε α} (h : Meets see rule x post fail r s)
    (hpost : ∀ value t u, post value t u → post' value t u)
    (hfail : ∀ e t u, fail e t u → fail' e t u) : Meets see rule x post' fail' r s := by
  refine Program.Obeys.mono h (fun _ _ => id) ?_
  rintro ⟨⟨e⟩ | ⟨value⟩, t⟩ u hu
  · exact hfail e t u hu
  · exact hpost value t u hu

/-- What code does under one monitor, it does under every monitor that simulates it. -/
theorem Meets.simulate {see' : τ → Event S → τ} {rule' : τ → S.Op → Prop} {J : σ → τ → Prop}
    {x : Process S ρ ε α} {t : τ} (h : Meets see rule x post fail r s) (sim : Simulates see rule see' rule' J)
    (related : J s t) :
    Meets see' rule' x (fun value r t => ∃ s, J s t ∧ post value r s) (fun e r t => ∃ s, J s t ∧ fail e r s) r t := by
  refine (Program.Obeys.simulate h sim related).mono (fun _ _ => id) ?_
  rintro ⟨⟨e⟩ | ⟨value⟩, r'⟩ u hu <;> exact hu

/-- Weakening of the normal postcondition alone. -/
theorem Meets.imp {x : Process S ρ ε α} (h : Meets see rule x post fail r s)
    (hpost : ∀ value t u, post value t u → post' value t u) : Meets see rule x post' fail r s :=
  h.mono hpost fun _ _ _ => id

/-- What is proved apart holds together, under either rule. -/
theorem Meets.and {rule' : σ → S.Op → Prop} {x : Process S ρ ε α} (h : Meets see rule x post fail r s)
    (h' : Meets see rule' x post' fail' r s) :
    Meets see rule' x (fun value t u => post value t u ∧ post' value t u)
      (fun e t u => fail e t u ∧ fail' e t u) r s := by
  refine (Program.Obeys.and h h').mono (fun _ _ => And.right) ?_
  rintro ⟨⟨e⟩ | ⟨value⟩, t⟩ u hu <;> exact hu

/-- Code with a state of its own, with one description `Q` of both ways to end. -/
theorem meets_embed_of {δ : Type} {x : Process S θ δ α} {t : θ}
    {post : Except δ α × θ → ρ → σ → Prop} {Q : Except δ α → θ → σ → Prop}
    (inner : Meets see rule x (fun value => Q (.ok value)) (fun e => Q (.error e)) t s)
    (rest : ∀ got t s, Q got t s → post (got, t) r s) :
    Meets see rule (embed x t : Process S ρ ε (Except δ α × θ)) post fail r s :=
  meets_embed.mpr (inner.mono (fun _ _ _ => rest _ _ _) fun _ _ _ => rest _ _ _)

end Rules

/-! ## Invariants -/

section Keeps

variable {see : σ → Event S → σ} {rule : σ → S.Op → Prop} {I : σ → Prop} {fail : ε → Prop}

/-- From every state and every summary in `I`, the process obeys the rule, ends normally only in `I`,
and gives up only with `fail`. -/
def Keeps (see : σ → Event S → σ) (rule : σ → S.Op → Prop) (I : σ → Prop) (fail : ε → Prop)
    (x : Process S ρ ε α) : Prop :=
  ∀ r s, I s → Meets see rule x (fun _ _ s => I s) (fun e _ _ => fail e) r s

theorem Keeps.pure {value : α} : (pure value : Process S ρ ε α).Keeps see rule I fail :=
  fun _ _ h => h

theorem Keeps.throw {e : ε} (given : fail e) : (throw e : Process S ρ ε α).Keeps see rule I fail :=
  fun _ _ _ => given

theorem Keeps.get : (get : Process S ρ ε ρ).Keeps see rule I fail := fun _ _ h => h

theorem Keeps.modify {f : ρ → ρ} : (modify f : Process S ρ ε PUnit).Keeps see rule I fail :=
  fun _ _ h => h

theorem Keeps.perform {op : S.Op} (step : ∀ s, I s → rule s op ∧ ∀ answer, I (see s ⟨op, answer⟩)) :
    (perform op : Process S ρ ε (S.Answer op)).Keeps see rule I fail := fun _ s h => step s h

theorem Keeps.bind {x : Process S ρ ε α} {f : α → Process S ρ ε β} (first : x.Keeps see rule I fail)
    (second : ∀ value, (f value).Keeps see rule I fail) : (x >>= f).Keeps see rule I fail :=
  fun r s h => meets_bind.mpr ((first r s h).imp fun value t u => second value t u)

/-- An attempt that failed keeps the invariant too, if every event does. -/
theorem Keeps.attempt {δ : Type} {given : δ → Prop} {x : Process S ρ ε α}
    (keeps : x.Keeps see rule (fun _ => True) fail) :
    (attempt x : Process S ρ δ (Except ε α)).Keeps see rule (fun _ => True) given :=
  fun r s h => meets_attempt.mpr ((keeps r s h).mono (fun _ _ _ => id) fun _ _ _ _ => trivial)

/-- What a process keeps under one monitor, it keeps under every monitor that simulates it. -/
theorem Keeps.simulate {see' : τ → Event S → τ} {rule' : τ → S.Op → Prop} {J : σ → τ → Prop}
    {x : Process S ρ ε α} {r : ρ} {s : σ} {t : τ} (keeps : x.Keeps see rule I fail)
    (sim : Simulates see rule see' rule' J) (start : I s) (related : J s t) :
    Meets see' rule' x (fun _ _ t => ∃ s, I s ∧ J s t) (fun e _ t => fail e ∧ ∃ s, J s t) r t := by
  refine ((keeps r s start).simulate sim related).mono ?_ ?_
  · rintro _ _ _ ⟨s', hJ, inside⟩
    exact ⟨s', inside, hJ⟩
  · rintro _ _ _ ⟨s', hJ, given⟩
    exact ⟨given, s', hJ⟩

end Keeps

/-! ## Invariants of the state -/

section Stable

variable {see : σ → Event S → σ} {rule : σ → S.Op → Prop} {I : ρ → σ → Prop}

/-- From every state and summary in `I`, the process obeys the rule, and however it ends, it ends in `I`. -/
def Stable (see : σ → Event S → σ) (rule : σ → S.Op → Prop) (I : ρ → σ → Prop) (x : Process S ρ ε α) : Prop :=
  ∀ r s, I r s → Meets see rule x (fun _ => I) (fun _ => I) r s

theorem Stable.pure {value : α} : (pure value : Process S ρ ε α).Stable see rule I := fun _ _ h => h

theorem Stable.throw {e : ε} : (throw e : Process S ρ ε α).Stable see rule I := fun _ _ h => h

theorem Stable.get : (get : Process S ρ ε ρ).Stable see rule I := fun _ _ h => h

theorem Stable.modify {f : ρ → ρ} (step : ∀ r s, I r s → I (f r) s) :
    (modify f : Process S ρ ε PUnit).Stable see rule I := step

theorem Stable.perform {op : S.Op} (step : ∀ r s, I r s → rule s op ∧ ∀ answer, I r (see s ⟨op, answer⟩)) :
    (perform op : Process S ρ ε (S.Answer op)).Stable see rule I := step

theorem Stable.bind {x : Process S ρ ε α} {f : α → Process S ρ ε β} (first : x.Stable see rule I)
    (second : ∀ value, (f value).Stable see rule I) : (x >>= f).Stable see rule I :=
  fun r s h => meets_bind.mpr ((first r s h).imp fun value t u => second value t u)

theorem Stable.attempt {δ : Type} {x : Process S ρ ε α} (stable : x.Stable see rule I) :
    (attempt x : Process S ρ δ (Except ε α)).Stable see rule I :=
  fun r s h => meets_attempt.mpr (stable r s h)

theorem Stable.ofExcept {δ : Type} {wrap : δ → ε} {x : Except δ α} :
    (ofExcept wrap x : Process S ρ ε α).Stable see rule I :=
  fun _ _ h => meets_ofExcept (fun _ _ => h) fun _ _ => h

end Stable

end Process

end Harpoon.Interact

/-!
## Surroundings with a state

Surroundings that work as they should answer each operation by their own state, and each operation changes
that state. A program run in them has one outcome, which `on` computes along the text of the code.
-/

namespace Harpoon.Interact

variable {S : Signature} {σ ε α β : Type}

/-- The outcome of `p` in surroundings that answer by their state, and the state they are left in. -/
def Program.runOn (answer : σ → (op : S.Op) → S.Answer op) (see : σ → Event S → σ) : Program S α → σ → α × σ
  | .done value, s => (value, s)
  | .ask op next, s => (next (answer s op)).runOn answer see (see s ⟨op, answer s op⟩)

theorem Program.runOn_bind {answer : σ → (op : S.Op) → S.Answer op} {see : σ → Event S → σ} {p : Program S α}
    {f : α → Program S β} {s : σ} :
    (p.bind f).runOn answer see s = (f (p.runOn answer see s).1).runOn answer see (p.runOn answer see s).2 := by
  induction p generalizing s with
  | done value => rfl
  | ask op next ih => exact ih _

namespace Process

/-- The outcome of a process with no state of its own. -/
def on (answer : σ → (op : S.Op) → S.Answer op) (see : σ → Event S → σ) (x : Process S Unit ε α) (s : σ) :
    Except ε α × σ :=
  let out := (x.toProgram ()).runOn answer see s
  (out.1.1, out.2)

variable {answer : σ → (op : S.Op) → S.Answer op} {see : σ → Event S → σ} {s t : σ}

theorem on_bind {x : Process S Unit ε α} {f : α → Process S Unit ε β} :
    (x >>= f).on answer see s = match x.on answer see s with
      | (.ok value, t) => (f value).on answer see t
      | (.error e, t) => (.error e, t) := by
  unfold on
  rw [toProgram_bind, Program.runOn_bind]
  generalize (x.toProgram ()).runOn answer see s = out
  obtain ⟨⟨⟨e⟩ | ⟨value⟩, _⟩, t⟩ := out <;> rfl

theorem on_ofExcept {δ : Type} {wrap : δ → ε} {x : Except δ α} :
    (ofExcept wrap x : Process S Unit ε α).on answer see s = (x.mapError wrap, s) := by
  cases x <;> rfl

/-! ## States that a program cannot tell apart -/

/-- Code that asks only what two states answer alike, and that leaves them alike, comes to the same in both. -/
theorem Program.runOn_alike {τ : Type} {watch : τ → Event S → τ} {rule : τ → S.Op → Prop} {post : α → τ → Prop}
    {J : σ → σ → Prop} {p : Program S α} {u : τ} (obeys : p.Obeys watch rule post u)
    (step : ∀ u s t op, rule u op → J s t →
      answer s op = answer t op ∧ J (see s ⟨op, answer s op⟩) (see t ⟨op, answer t op⟩)) (alike : J s t) :
    (p.runOn answer see s).1 = (p.runOn answer see t).1 ∧ J (p.runOn answer see s).2 (p.runOn answer see t).2 := by
  induction p generalizing s t u with
  | done value => exact ⟨rfl, alike⟩
  | ask op next ih =>
    obtain ⟨same, left⟩ := step u s t op obeys.1 alike
    unfold Program.runOn
    rw [← same] at left ⊢
    exact ih _ (obeys.2 _) left

/-- A process comes to the same in the two states, and leaves them alike. -/
def Alike (answer : σ → (op : S.Op) → S.Answer op) (see : σ → Event S → σ) (J : σ → σ → Prop)
    (x : Process S Unit ε α) : Prop :=
  ∀ s t, J s t → (x.on answer see s).1 = (x.on answer see t).1 ∧ J (x.on answer see s).2 (x.on answer see t).2

theorem Alike.bind {J : σ → σ → Prop} {x : Process S Unit ε α} {f : α → Process S Unit ε β}
    (first : x.Alike answer see J) (rest : ∀ value, (f value).Alike answer see J) : (x >>= f).Alike answer see J := by
  intro s t alike
  obtain ⟨same, left⟩ := first s t alike
  rw [on_bind, on_bind]
  generalize x.on answer see s = out at same left
  generalize x.on answer see t = out' at same left
  obtain ⟨got, s'⟩ := out
  obtain ⟨got', t'⟩ := out'
  cases same
  cases got with
  | error e => exact ⟨rfl, left⟩
  | ok value => exact rest value s' t' left

theorem Meets.alike {τ : Type} {watch : τ → Event S → τ} {rule : τ → S.Op → Prop} {J : σ → σ → Prop}
    {x : Process S Unit ε α} {post : α → Unit → τ → Prop} {fail : ε → Unit → τ → Prop} {u : τ}
    (meets : Meets watch rule x post fail () u)
    (step : ∀ u s t op, rule u op → J s t →
      answer s op = answer t op ∧ J (see s ⟨op, answer s op⟩) (see t ⟨op, answer t op⟩)) : x.Alike answer see J :=
  fun _ _ alike =>
    have ⟨same, left⟩ := Program.runOn_alike meets step alike
    ⟨congrArg (fun out : Except ε α × Unit => out.1) same, left⟩

end Process

end Harpoon.Interact
