import TieredMemory.Block.Device

namespace TieredMemory

structure Clipped (D : Type) where
  device : D
  limit : Nat

structure ClippedProvider (P : Type) where
  provider : P
  limit : Nat

namespace Clipped

variable {D P α : Type}

def pass (op : Op D α) : Op (Clipped D) α := fun c =>
  let (r, device) := op c.device
  (r, { c with device })

def read [BlockDevice D] (block offset length : Nat) : Op (Clipped D) (Nat × ByteArray) := fun c =>
  let limit := c.limit
  pass (do
    let (moved, bytes) ← BlockDevice.read block offset length
    return (min limit moved, bytes)) c

def write [BlockDevice D] (block offset : Nat) (data : ByteArray) : Op (Clipped D) Nat := fun c =>
  let limit := c.limit
  pass (do
    let moved ← BlockDevice.write block offset data
    return min limit moved) c

instance [BlockDevice D] : BlockDevice (Clipped D) where
  blockSize c := BlockDevice.blockSize c.device
  maxBlocks c := BlockDevice.maxBlocks c.device
  read := read
  write := write
  close := pass BlockDevice.close
  abandon c := { c with device := BlockDevice.abandon c.device }
  events c := BlockDevice.events c.device

instance [BlockProvider P D] : BlockProvider (ClippedProvider P) (Clipped D) where
  maximumBlocks p blockSize := BlockProvider.maximumBlocks p.provider blockSize
  init p blockSize blocks :=
    match BlockProvider.init p.provider blockSize blocks with
    | .ok device => .ok ⟨device, p.limit⟩
    | .error (e, provider) => .error (e, { p with provider })
  events p := BlockProvider.events p.provider

end Clipped

end TieredMemory
