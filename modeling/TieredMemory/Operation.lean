import TieredMemory.Error

/-!
Operations on a state. A failure does not undo anything: the state that a failing operation
leaves behind is part of its answer.
-/

namespace TieredMemory

/-- A step on `σ` that answers an `α` or fails, and leaves a state either way. -/
abbrev Op (σ α : Type) := ExceptT Error (StateM σ) α

namespace Op

variable {σ α β : Type}

def ofExcept (r : Except Error α) : Op σ α := fun s => (r, s)

theorem pure_apply (a : α) (s : σ) : (pure a : Op σ α) s = (.ok a, s) := rfl

theorem bind_apply_ok {x : Op σ α} {f : α → Op σ β} {s t : σ} {a : α}
    (h : x s = (.ok a, t)) : (x >>= f) s = f a t := by
  show ExceptT.bindCont f (x s).1 (x s).2 = f a t
  rw [h]; rfl

theorem bind_apply_error {x : Op σ α} {f : α → Op σ β} {s t : σ} {e : Error}
    (h : x s = (.error e, t)) : (x >>= f) s = (.error e, t) := by
  show ExceptT.bindCont f (x s).1 (x s).2 = (.error e, t)
  rw [h]; rfl

end Op

end TieredMemory
