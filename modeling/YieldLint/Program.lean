/-
Programs that answer or fail, and change a state as they go.

A failure ends a program, and what was done before it stays done.
-/
import YieldLint.Failure

namespace YieldLint

/-- Answers or fails, and leaves the state as it is by then. -/
abbrev Program (σ α : Type) := ExceptT Failure (StateM σ) α

namespace Program

variable {σ α β : Type}

def exec (p : Program σ α) (s : σ) : Except Failure α × σ := p.run.run s

/-- The answer and the state that comes with it. A failure comes with no state. -/
def result (p : Program σ α) (s : σ) : Except Failure (α × σ) :=
  match p.exec s with
  | (.ok a, s') => .ok (a, s')
  | (.error e, _) => .error e

/-- The answer, or another one after a failure, and the state that is left. -/
def answer (p : Program σ α) (otherwise : α) (s : σ) : α × σ :=
  match p.exec s with
  | (.ok a, s') => (a, s')
  | (.error _, s') => (otherwise, s')

/-! ## Steps -/

theorem exec_pure (a : α) (s : σ) : exec (pure a) s = (.ok a, s) := rfl

theorem exec_lift (x : Except Failure α) (s : σ) : exec (liftM x : Program σ α) s = (x, s) := rfl

theorem exec_get (s : σ) : exec get s = (.ok s, s) := rfl

/-- A program goes on with what the one before it answers, and from the state that it
leaves; a failure ends it there. -/
theorem exec_bind (p : Program σ α) (f : α → Program σ β) (s : σ) :
    exec (p >>= f) s =
      match p.exec s with
      | (.ok a, s') => (f a).exec s'
      | (.error e, s') => (.error e, s') := by
  show (ExceptT.bind p f).run.run s = _
  simp only [ExceptT.bind, ExceptT.run, ExceptT.mk, exec, bind, StateT.run, StateT.bind]
  rcases p s with ⟨e | a, s'⟩
  · rfl
  · rfl

section Bind

variable {p : Program σ α} {f : α → Program σ β} {s s' : σ}

theorem exec_bind_of_ok {a : α} (h : p.exec s = (.ok a, s')) :
    exec (p >>= f) s = (f a).exec s' := by
  rw [exec_bind, h]

theorem exec_bind_of_error {e : Failure} (h : p.exec s = (.error e, s')) :
    exec (p >>= f) s = (.error e, s') := by
  rw [exec_bind, h]

/-- A program of two parts fails in the first or the second. -/
theorem exec_bind_eq_error_iff {e : Failure} :
    exec (p >>= f) s = (.error e, s') ↔ p.exec s = (.error e, s') ∨
      ∃ a s'', p.exec s = (.ok a, s'') ∧ (f a).exec s'' = (.error e, s') := by
  rw [exec_bind]
  rcases p.exec s with ⟨e' | a, s''⟩
  · simp
  · refine ⟨fun h => .inr ⟨a, s'', rfl, h⟩, ?_⟩
    rintro (h | ⟨_, _, h, hrest⟩)
    · cases h
    · cases h
      exact hrest

end Bind

/-! ## What comes of a program -/

section Outcome

variable {p : Program σ α} {s s' : σ} {a : α}

theorem result_eq_ok_iff : p.result s = .ok (a, s') ↔ p.exec s = (.ok a, s') := by
  rw [result]
  rcases p.exec s with ⟨e | a', s''⟩
  · simp
  · simp

theorem answer_of_ok (h : p.exec s = (.ok a, s')) (otherwise : α) :
    p.answer otherwise s = (a, s') := by
  rw [answer, h]

/-- A program that does not fail leaves what it answers with. -/
theorem exec_eq_answer (h : p.exec s = (.ok a, s')) (otherwise : α) :
    p.exec s = (.ok (p.answer otherwise s).1, (p.answer otherwise s).2) := by
  rw [answer_of_ok h, h]

end Outcome

end Program

end YieldLint
