import TieredMemory.Backend.Basic
import TieredMemory.SparseBytes

namespace TieredMemory

structure FlatMemory where
  bytes : SparseBytes
  reads : Array (Nat × Nat) := #[]
  writes : Array (Nat × Nat) := #[]
  flushes : Nat := 0

namespace FlatMemory

def ofSize (size : Nat) : FlatMemory := { bytes := .zeros size }

def read (address length : Nat) : Op FlatMemory ByteArray := fun m =>
  match checkRange address length (some m.bytes.size) with
  | .error e => (.error e, m)
  | .ok () =>
    (.ok (m.bytes.slice address length), { m with reads := m.reads.push (address, length) })

def write (address : Nat) (data : ByteArray) : Op FlatMemory Unit := fun m =>
  match checkRange address data.size (some m.bytes.size) with
  | .error e => (.error e, m)
  | .ok () =>
    (.ok (), { m with
      bytes := m.bytes.patch address data, writes := m.writes.push (address, data.size) })

def flush : Op FlatMemory Unit := fun m => (.ok (), { m with flushes := m.flushes + 1 })

instance : Backend FlatMemory where
  read := read
  write := write
  flush := flush
  shutdown := pure ()
  capacity m := some m.bytes.size

end FlatMemory

end TieredMemory
