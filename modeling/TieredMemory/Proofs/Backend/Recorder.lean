import TieredMemory.Backend.Basic
import TieredMemory.Proofs.Outcome

namespace TieredMemory

variable {σ τ α β γ : Type}

def Op.Commutes (f : σ → τ) (op : Op σ α) (op' : Op τ α) : Prop :=
  ∀ s, op' (f s) = ((op s).1, f (op s).2)

namespace Op.Commutes

variable {f : σ → τ}

theorem apply_eq {op : Op σ α} {op' : Op τ α} {s t : σ} {r : Except Error α}
    (h : op.Commutes f op') (he : op s = (r, t)) : op' (f s) = (r, f t) := by
  rw [h s, he]

theorem ends {op : Op σ α} {op' : Op τ α} {s : σ} {ok : α → τ → Prop} {bad : Error → τ → Prop}
    (h : op.Commutes f op') (he : op'.Ends (f s) ok bad) :
    op.Ends s (fun a t => ok a (f t)) (fun e t => bad e (f t)) := by
  rcases hop : op s with ⟨e | a, t⟩
  · exact .of_error hop (he.error_of_eq (h.apply_eq hop))
  · exact .of_ok hop (he.ok_of_eq (h.apply_eq hop))

theorem pure (a : α) : Op.Commutes f (Pure.pure a) (Pure.pure a) := fun _ => rfl

theorem bind {x : Op σ α} {x' : Op τ α} {k : α → Op σ β} {k' : α → Op τ β}
    (h : x.Commutes f x') (hk : ∀ a, (k a).Commutes f (k' a)) :
    Op.Commutes f (x >>= k) (x' >>= k') := by
  intro s
  rcases hx : x s with ⟨e | a, t⟩
  · rw [Op.bind_apply_error hx, Op.bind_apply_error (h.apply_eq hx)]
  · rw [Op.bind_apply_ok hx, Op.bind_apply_ok (h.apply_eq hx)]
    exact hk a t

end Op.Commutes

structure Backend.Hom [Backend β] [Backend γ] (f : β → γ) : Prop where
  read : ∀ address length, (Backend.read address length).Commutes f (Backend.read address length)
  write : ∀ address data, (Backend.write address data).Commutes f (Backend.write address data)
  flush : Op.Commutes f Backend.flush Backend.flush
  shutdown : Op.Commutes f Backend.shutdown Backend.shutdown
  capacity : ∀ b, Backend.capacity (f b) = Backend.capacity b
  events : ∀ b, Backend.events (f b) = Backend.events b

theorem Backend.Hom.id [Backend β] : Backend.Hom (id : β → β) where
  read _ _ _ := rfl
  write _ _ _ := rfl
  flush _ := rfl
  shutdown _ := rfl
  capacity _ := rfl
  events _ := rfl

structure Written (β : Type) where
  address : Nat
  data : ByteArray
  succeeded : Bool
  left : β

structure Recorded (β : Type) where
  inner : β
  log : List (Written β) := []

namespace Recorded

def pass (op : Op β α) : Op (Recorded β) α := fun r =>
  let (a, inner) := op r.inner
  (a, { r with inner })

def write [Backend β] (address : Nat) (data : ByteArray) : Op (Recorded β) Unit := fun r =>
  let (a, inner) := Backend.write address data r.inner
  (a, { inner, log := r.log ++ [⟨address, data, a.isOk, inner⟩] })

instance [Backend β] : Backend (Recorded β) where
  read address length := pass (Backend.read address length)
  write := write
  flush := pass Backend.flush
  shutdown := pass Backend.shutdown
  capacity r := Backend.capacity r.inner
  events r := Backend.events r.inner

def start (b : β) : Recorded β := { inner := b }

theorem log_write [Backend β] {address : Nat} {data : ByteArray} {r t : Recorded β}
    {a : Except Error Unit} (h : Backend.write address data r = (a, t)) :
    t.log = r.log ++ [⟨address, data, a.isOk, t.inner⟩] := by
  cases h
  rfl

theorem hom_inner [Backend β] : Backend.Hom (inner : Recorded β → β) where
  read _ _ _ := rfl
  write _ _ _ := rfl
  flush _ := rfl
  shutdown _ := rfl
  capacity _ := rfl
  events _ := rfl

end Recorded

end TieredMemory
