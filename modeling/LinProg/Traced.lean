import LinProg.Event
import LinProg.Fault

/-!
Computations that report their steps and may break off with a fault.

* `Traced`: the steps reported so far and the result. The steps before a fault are kept.
* `Traced.emit`: reports a step. A computation without reports is lifted from `Except Fault`.
* `Traced.result_bind`, `Traced.events_bind`: what a sequence gives and reports.
-/

namespace LinProg

/-- Reported steps, in order, with a value or a fault. -/
@[ext] structure Traced (α β : Type) where
  events : List (Event α)
  result : Except Fault β

namespace Traced

variable {α β γ : Type}

/-- Reports a step. -/
def emit (event : Event α) : Traced α Unit := ⟨[event], .ok ()⟩

/-- Breaks off. -/
def fail (fault : Fault) : Traced α β := ⟨[], .error fault⟩

/-- Goes on with the value of a computation, if it has one. -/
def andThen (x : Traced α β) (next : β → Traced α γ) : Traced α γ :=
  match x.result with
  | .error fault => ⟨x.events, .error fault⟩
  | .ok value => ⟨x.events ++ (next value).events, (next value).result⟩

instance : Monad (Traced α) where
  pure x := ⟨[], .ok x⟩
  bind := andThen

instance : MonadLift (Except Fault) (Traced α) where
  monadLift result := ⟨[], result⟩

/-! ### Results and reports -/

/-- A value alone is its own result. -/
@[simp] theorem result_pure (x : β) : (pure x : Traced α β).result = .ok x := rfl

/-- Reporting a step gives nothing. -/
@[simp] theorem result_emit (event : Event α) : (emit event).result = .ok () := rfl

/-- Breaking off gives the fault. -/
@[simp] theorem result_fail (fault : Fault) :
    (fail fault : Traced α β).result = .error fault := rfl

/-- A computation without reports gives what it gave before. -/
@[simp] theorem result_monadLift (x : Except Fault β) :
    (monadLift x : Traced α β).result = x := rfl

/-- A sequence gives what its parts give in sequence. -/
@[simp] theorem result_bind (x : Traced α β) (next : β → Traced α γ) :
    (x >>= next).result = x.result.bind fun value => (next value).result := by
  simp only [bind, andThen]
  cases x.result <;> rfl

/-- A sequence reports what its first part reports and, if that does not break off, what the rest
does. -/
theorem events_bind (x : Traced α β) (next : β → Traced α γ) :
    (x >>= next).events = x.events ++
      match x.result with
      | .error _ => []
      | .ok value => (next value).events := by
  simp only [bind, andThen]
  cases x.result <;> simp

end Traced

end LinProg
