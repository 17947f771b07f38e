import TieredMemory.Block.BankSwitch
import TieredMemory.Faults

namespace TieredMemory

structure Monitored (D : Type) where
  driver : D
  onAlloc : Faults := {}
  onFree : Faults := {}
  onMap : Faults := {}
  onUnmap : Faults := {}
  events : BankLog := #[]

namespace Monitored

variable {D : Type} [BankSwitch D]

def perform (call : BankCall) (name : String) (fails : Bool) (op : Op D Unit) :
    Op (Monitored D) Unit := fun m =>
  if fails then
    (.error (.bankSwitch s!"injected {name}"), { m with events := m.events.push ⟨call, false⟩ })
  else
    let (r, driver) := op m.driver
    (r, { m with driver, events := m.events.push ⟨call, r.isOk⟩ })

def alloc (bytes : Nat) : Op (Monitored D) Unit := fun m =>
  let (fails, onAlloc) := m.onAlloc.next
  perform (.alloc bytes) "alloc" fails (BankSwitch.alloc bytes) { m with onAlloc }

def free : Op (Monitored D) Unit := fun m =>
  let (fails, onFree) := m.onFree.next
  perform .free "free" fails BankSwitch.free { m with onFree }

def map (offset : Nat) : Op (Monitored D) Unit := fun m =>
  let (fails, onMap) := m.onMap.next
  perform (.map offset) "map" fails (BankSwitch.map offset) { m with onMap }

def unmap : Op (Monitored D) Unit := fun m =>
  let (fails, onUnmap) := m.onUnmap.next
  perform .unmap "unmap" fails BankSwitch.unmap { m with onUnmap }

instance : BankSwitch (Monitored D) where
  physicalSize m := BankSwitch.physicalSize m.driver
  freeSize m := BankSwitch.freeSize m.driver
  reservedSize m := BankSwitch.reservedSize m.driver
  alloc := alloc
  free := free
  map := map
  unmap := unmap
  events m := m.events
  window m := BankSwitch.window m.driver
  editWindow f m := { m with driver := BankSwitch.editWindow f m.driver }

end Monitored

end TieredMemory
