import TieredMemory.Backend.Basic
import TieredMemory.Faults

namespace TieredMemory

structure Gate (β : Type) where
  inner : β
  unbounded : Bool := false
  onRead : Faults := {}
  onWrite : Faults := {}
  onFlush : Faults := {}
  onShutdown : Faults := {}

namespace Gate

variable {β : Type} [Backend β] {α : Type}

def refusal (call : String) : Error := .bankSwitch s!"injected {call}"

def pass (op : Op β α) : Op (Gate β) α := fun g =>
  let (r, inner) := op g.inner
  (r, { g with inner })

def read (address length : Nat) : Op (Gate β) ByteArray := fun g =>
  let (fails, onRead) := g.onRead.next
  let g := { g with onRead }
  if fails then (.error (refusal "read"), g) else pass (Backend.read address length) g

def write (address : Nat) (data : ByteArray) : Op (Gate β) Unit := fun g =>
  let (fails, onWrite) := g.onWrite.next
  let g := { g with onWrite }
  if fails then (.error (refusal "write"), g) else pass (Backend.write address data) g

def flush : Op (Gate β) Unit := fun g =>
  let (fails, onFlush) := g.onFlush.next
  let g := { g with onFlush }
  if fails then (.error (refusal "flush"), g) else pass Backend.flush g

def shutdown : Op (Gate β) Unit := fun g =>
  let (fails, onShutdown) := g.onShutdown.next
  let g := { g with onShutdown }
  if fails then (.error (refusal "shutdown"), g) else pass Backend.shutdown g

instance : Backend (Gate β) where
  read := read
  write := write
  flush := flush
  shutdown := shutdown
  capacity g := if g.unbounded then none else Backend.capacity g.inner
  events g := Backend.events g.inner

end Gate

end TieredMemory
