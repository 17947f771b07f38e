import TieredMemory.Block.Device
import TieredMemory.SparseBytes

namespace TieredMemory

structure EmulatedProvider where
  maximumMemory : Nat := 4 * 1024 * 1024

structure EmulatedMemory where
  container : SparseBytes
  blockSize : Nat
  maxBlocks : Nat

namespace EmulatedProvider

def maximumBlocks (p : EmulatedProvider) (blockSize : Nat) : Nat :=
  min (p.maximumMemory / blockSize) BlockDevice.blockLimit

def init (p : EmulatedProvider) (blockSize blocks : Nat) :
    Except (Error × EmulatedProvider) EmulatedMemory :=
  if blockSize = 0 then .error (.invalidBlockSize "block size must be non-zero", p)
  else if p.maximumBlocks blockSize < blocks then
    .error (.insufficientMemory blocks (p.maximumBlocks blockSize), p)
  else .ok ⟨.zeros (blockSize * blocks), blockSize, blocks⟩

instance : BlockProvider EmulatedProvider EmulatedMemory where
  maximumBlocks := maximumBlocks
  init := init

end EmulatedProvider

namespace EmulatedMemory

def position (m : EmulatedMemory) (block offset : Nat) : Nat := block * m.blockSize + offset

def read (block offset length : Nat) : Op EmulatedMemory (Nat × ByteArray) := fun m =>
  match BlockDevice.checkAccess block m.maxBlocks m.blockSize offset length with
  | .error e => (.error e, m)
  | .ok () => (.ok (length, m.container.slice (m.position block offset) length), m)

def write (block offset : Nat) (data : ByteArray) : Op EmulatedMemory Nat := fun m =>
  match BlockDevice.checkAccess block m.maxBlocks m.blockSize offset data.size with
  | .error e => (.error e, m)
  | .ok () =>
    let start := m.position block offset
    (.ok data.size, { m with container := m.container.patch start data })

instance : BlockDevice EmulatedMemory where
  blockSize m := m.blockSize
  maxBlocks m := m.maxBlocks
  read := read
  write := write
  close := pure ()
  abandon m := m

end EmulatedMemory

end TieredMemory
