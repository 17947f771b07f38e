import TieredMemory.Operation
import TieredMemory.Block.Event

namespace TieredMemory

class BlockDevice (D : Type) where
  blockSize : D → Nat
  maxBlocks : D → Nat
  read : (block offset length : Nat) → Op D (Nat × ByteArray)
  write : (block offset : Nat) → (data : ByteArray) → Op D Nat
  close : Op D Unit
  abandon : D → D
  events : D → BankLog := fun _ => #[]

class BlockProvider (P : Type) (D : outParam Type) where
  /-- How many blocks of a size there is room for, zero for a size that cannot be used. -/
  maximumBlocks : P → (blockSize : Nat) → Nat
  init : P → (blockSize blocks : Nat) → Except (Error × P) D
  events : P → BankLog := fun _ => #[]

namespace BlockDevice

def blockLimit : Nat := 65535

def checkAccess (block maxBlocks blockSize offset length : Nat) : Except Error Unit :=
  if maxBlocks ≤ block then .error (.blockOutOfRange block maxBlocks)
  else if blockSize < length then .error (.lengthExceedsBlock length blockSize)
  else if blockSize < offset + length then .error (.offsetOutOfBounds offset length blockSize)
  else .ok ()

theorem checkAccess_eq_ok_iff {block maxBlocks blockSize offset length : Nat} :
    checkAccess block maxBlocks blockSize offset length = .ok () ↔
      block < maxBlocks ∧ offset + length ≤ blockSize := by
  rw [checkAccess]
  by_cases hblock : maxBlocks ≤ block
  · rw [if_pos hblock]
    exact ⟨nofun, fun h => absurd h.1 (Nat.not_lt.mpr hblock)⟩
  rw [if_neg hblock]
  by_cases hlength : blockSize < length
  · rw [if_pos hlength]
    exact ⟨nofun, fun h => absurd (Nat.le_of_add_left_le h.2) (Nat.not_le.mpr hlength)⟩
  rw [if_neg hlength]
  by_cases hrange : blockSize < offset + length
  · rw [if_pos hrange]
    exact ⟨nofun, fun h => absurd h.2 (Nat.not_le.mpr hrange)⟩
  rw [if_neg hrange]
  exact ⟨fun _ => ⟨Nat.not_le.mp hblock, Nat.not_lt.mp hrange⟩, fun _ => rfl⟩

end BlockDevice

end TieredMemory
