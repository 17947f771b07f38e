import TieredMemory.Operation
import TieredMemory.Block.Event

namespace TieredMemory

class Backend (β : Type) where
  read : (address length : Nat) → Op β ByteArray
  write : (address : Nat) → (data : ByteArray) → Op β Unit
  flush : Op β Unit
  shutdown : Op β Unit
  capacity : β → Option Nat
  events : β → BankLog := fun _ => #[]

def checkRange (address length : Nat) (limit : Option Nat) : Except Error Unit :=
  match limit with
  | none => .ok ()
  | some limit =>
    if address + length ≤ limit then .ok () else .error (.addressOutOfRange address length limit)

theorem checkRange_eq_ok_iff {address length limit : Nat} :
    checkRange address length (some limit) = .ok () ↔ address + length ≤ limit := by
  rw [checkRange]
  by_cases hrange : address + length ≤ limit
  · rw [if_pos hrange]
    exact ⟨fun _ => hrange, fun _ => rfl⟩
  · rw [if_neg hrange]
    exact ⟨nofun, fun h => absurd h hrange⟩

end TieredMemory
