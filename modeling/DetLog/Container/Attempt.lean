import Mathlib.Tactic

/-!
# Programs that may be rejected

A program over a state that runs statement by statement and may stop with an error. What it has
written by then stays written, so whether a rejected run leaves the state alone depends on the order
of the statements.

`DetLog.Attempt.Atomic` says that it does. The rule for it is the one by which such programs are
written: first statements that only check (`DetLog.Attempt.Checks`), then statements that cannot
fail any more (`DetLog.Attempt.Succeeds`).
-/

namespace DetLog

/-- A program with a state `σ` and errors `ε`. -/
abbrev Attempt (σ ε : Type) : Type → Type := ExceptT ε (StateM σ)

/-- The statement that stops a program under a condition. -/
def rejectIf {σ ε : Type} (condition : Prop) [Decidable condition] (error : ε) : Attempt σ ε Unit :=
  if condition then throw error else pure ()

namespace Attempt

variable {σ ε α β : Type} {p : Attempt σ ε α} {f : α → Attempt σ ε β}

/-- The result of a run, and the state that it leaves. -/
def exec (p : Attempt σ ε α) (s : σ) : Except ε α × σ := p.run.run s

/-- A rejected run leaves the state as it was. -/
def Atomic (p : Attempt σ ε α) : Prop := ∀ s e, (p.exec s).1 = .error e → (p.exec s).2 = s

/-- The program writes nothing. -/
def Checks (p : Attempt σ ε α) : Prop := ∀ s, (p.exec s).2 = s

/-- The program is never rejected. -/
def Succeeds (p : Attempt σ ε α) : Prop := ∀ s, ∃ a, (p.exec s).1 = .ok a

/-- A first part that succeeds hands its state on. -/
theorem exec_bind_ok {s : σ} {a : α} (h : (p.exec s).1 = .ok a) :
    (p >>= f).exec s = (f a).exec (p.exec s).2 := by
  simp only [exec, ExceptT.run_bind, StateT.run_bind] at h ⊢
  change StateT.run (match (StateT.run (ExceptT.run p) s).1 with
    | .ok a => _
    | .error e => _) _ = _
  rw [show (StateT.run (ExceptT.run p) s).1 = .ok a from h]

/-- A first part that is rejected is the end of the run. -/
theorem exec_bind_error {s : σ} {e : ε} (h : (p.exec s).1 = .error e) :
    (p >>= f).exec s = (.error e, (p.exec s).2) := by
  simp only [exec, ExceptT.run_bind, StateT.run_bind] at h ⊢
  change StateT.run (match (StateT.run (ExceptT.run p) s).1 with
    | .ok a => _
    | .error e => _) _ = _
  rw [show (StateT.run (ExceptT.run p) s).1 = .error e from h]
  rfl

/-! ### Checks -/

theorem checks_pure (a : α) : (pure a : Attempt σ ε α).Checks := fun _ => rfl

theorem checks_throw (e : ε) : (throw e : Attempt σ ε α).Checks := fun _ => rfl

theorem checks_get : (get : Attempt σ ε σ).Checks := fun _ => rfl

theorem checks_rejectIf (condition : Prop) [Decidable condition] (e : ε) :
    (rejectIf condition e : Attempt σ ε Unit).Checks := by
  unfold rejectIf
  split_ifs
  · exact checks_throw e
  · exact checks_pure ()

/-- Checks one after another are a check. -/
theorem Checks.bind (hp : p.Checks) (hf : ∀ a, (f a).Checks) : (p >>= f).Checks := by
  intro s
  cases h : (p.exec s).1 with
  | error e => rw [exec_bind_error h, hp]
  | ok a => rw [exec_bind_ok h, hf, hp]

/-- A loop of checks is a check. -/
theorem checks_foldlM {g : β → α → Attempt σ ε β} (hg : ∀ b a, (g b a).Checks) (l : List α)
    (b : β) :
    (l.foldlM g b).Checks := by
  induction l generalizing b with
  | nil => exact checks_pure b
  | cons a l ih => exact (hg b a).bind ih

/-! ### Assignments -/

theorem succeeds_pure (a : α) : (pure a : Attempt σ ε α).Succeeds := fun _ => ⟨a, rfl⟩

theorem succeeds_modify (g : σ → σ) : (modify g : Attempt σ ε PUnit).Succeeds := fun _ => ⟨⟨⟩, rfl⟩

theorem Succeeds.bind (hp : p.Succeeds) (hf : ∀ a, (f a).Succeeds) : (p >>= f).Succeeds := by
  intro s
  obtain ⟨a, ha⟩ := hp s
  rw [exec_bind_ok ha]
  exact hf a _

/-- A loop of what is never rejected is never rejected. -/
theorem succeeds_forM {g : α → Attempt σ ε PUnit} (hg : ∀ a, (g a).Succeeds) (l : List α) :
    (l.forM g).Succeeds := by
  induction l with
  | nil => exact succeeds_pure PUnit.unit
  | cons a l ih => exact (hg a).bind fun _ => ih

/-! ### Checks before assignments -/

/-- What is never rejected is atomic. -/
theorem Succeeds.atomic (h : p.Succeeds) : p.Atomic := by
  intro s e he
  obtain ⟨a, ha⟩ := h s
  exact absurd (ha.symm.trans he) (by simp)

/-- **A check in front of an atomic program.** -/
theorem Checks.atomic_bind (hp : p.Checks) (hf : ∀ a, (f a).Atomic) : (p >>= f).Atomic := by
  intro s e he
  cases h : (p.exec s).1 with
  | error e' => rw [exec_bind_error h, hp]
  | ok a =>
    rw [exec_bind_ok h] at he ⊢
    rw [hf a _ e he, hp]

theorem Atomic.after_get {f : σ → Attempt σ ε β} (h : ∀ s, (f s).Atomic) :
    ((get : Attempt σ ε σ) >>= f).Atomic :=
  checks_get.atomic_bind h

theorem Atomic.after_rejectIf {condition : Prop} [Decidable condition] {e : ε}
    {f : Unit → Attempt σ ε β} (h : (f ()).Atomic) : (rejectIf condition e >>= f).Atomic :=
  (checks_rejectIf condition e).atomic_bind fun _ => h

end Attempt

end DetLog
