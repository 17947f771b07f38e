import TieredMemory.Operation
import TieredMemory.Bytes
import TieredMemory.Block.Event

/-!
Bank switching: physical memory of which one superblock at a time shows through a fixed window.
-/

namespace TieredMemory

def superblockSize : Nat := 32 * 1024

class BankSwitch (D : Type) where
  physicalSize : D → Nat
  freeSize : D → Nat
  reservedSize : D → Nat
  alloc : (bytes : Nat) → Op D Unit
  free : Op D Unit
  map : (offset : Nat) → Op D Unit
  unmap : Op D Unit
  events : D → BankLog := fun _ => #[]
  window : D → ByteArray
  editWindow : (ByteArray → ByteArray) → D → D

structure SimulatedBanks where
  physicalSize : Nat
  reservedSize : Nat
  physical : ByteArray := ByteArray.empty
  window : ByteArray := Bytes.zeros superblockSize
  mappedAt : Option Nat := none

namespace SimulatedBanks

def poison : UInt8 := 0xa5

def alloc (bytes : Nat) : Op SimulatedBanks Unit := fun b =>
  if b.physical.size ≠ 0 then (.error (.bankSwitch "physical memory already allocated"), b)
  else if b.physicalSize < bytes then
    (.error (.bankSwitch s!"cannot allocate {bytes} of {b.physicalSize} bytes"), b)
  else (.ok (), { b with physical := Bytes.filled poison bytes })

def free : Op SimulatedBanks Unit := fun b =>
  if b.mappedAt.isSome then (.error (.bankSwitch "freeing while window is mapped"), b)
  else (.ok (), { b with physical := ByteArray.empty })

def map (offset : Nat) : Op SimulatedBanks Unit := fun b =>
  let stop := offset + superblockSize
  if b.mappedAt.isSome then (.error (.bankSwitch "window already mapped"), b)
  else if b.physical.size < stop then
    (.error (.bankSwitch
      s!"mapping {offset}..{stop} outside {b.physical.size} allocated bytes"), b)
  else
    (.ok (), { b with
      window := Bytes.slice b.physical offset superblockSize, mappedAt := some offset })

def unmap : Op SimulatedBanks Unit := fun b =>
  match b.mappedAt with
  | none => (.error (.bankSwitch "window not mapped"), b)
  | some offset =>
    (.ok (), { b with physical := Bytes.patch b.physical offset b.window, mappedAt := none })

instance : BankSwitch SimulatedBanks where
  physicalSize b := b.physicalSize
  freeSize b := b.physicalSize - b.physical.size
  reservedSize b := b.reservedSize
  alloc := alloc
  free := free
  map := map
  unmap := unmap
  window b := b.window
  editWindow f b := { b with window := f b.window }

end SimulatedBanks

end TieredMemory
