import TieredMemory.Block.Device

namespace TieredMemory

structure Allocator (D : Type) where
  device : D
  freeList : List Nat := []
  -- Blocks from here on were never issued.
  nextUnused : Nat := 0

namespace Allocator

variable {D α : Type}

def onDevice (op : Op D α) : Op (Allocator D) α := fun a =>
  let (r, device) := op a.device
  (r, { a with device })

variable [BlockDevice D]

def init {P : Type} [BlockProvider P D] (provider : P) (blockSize blocks : Nat) :
    Except (Error × P) (Allocator D) := do
  let device ← BlockProvider.init provider blockSize blocks
  return { device }

def blockSize (a : Allocator D) : Nat := BlockDevice.blockSize a.device

def maxBlocks (a : Allocator D) : Nat := BlockDevice.maxBlocks a.device

def freeBlocks (a : Allocator D) : Nat := a.freeList.length + (a.maxBlocks - a.nextUnused)

def allocate : Op (Allocator D) Nat := fun a =>
  match a.freeList with
  | block :: rest => (.ok block, { a with freeList := rest })
  | [] =>
    if a.nextUnused < a.maxBlocks then
      (.ok a.nextUnused, { a with nextUnused := a.nextUnused + 1 })
    else (.error .noSpace, a)

def free (block : Nat) : Op (Allocator D) Unit := fun a =>
  if a.nextUnused ≤ block then (.error (.blockOutOfRange block a.maxBlocks), a)
  else (.ok (), { a with freeList := block :: a.freeList })

def read (block offset length : Nat) : Op (Allocator D) (Nat × ByteArray) :=
  onDevice (BlockDevice.read block offset length)

def write (block offset : Nat) (data : ByteArray) : Op (Allocator D) Nat :=
  onDevice (BlockDevice.write block offset data)

def close : Op (Allocator D) Unit := onDevice BlockDevice.close

def abandon (a : Allocator D) : Allocator D := { a with device := BlockDevice.abandon a.device }

end Allocator

end TieredMemory
