import TieredMemory.Hierarchy

/-!
Hierarchies behind numbers, for callers that can hold nothing else. Numbers start at one and are
never used twice, so that a stale one reaches nobody; zero and minus one report failure. Between
two calls the bytes of every page file are on the disk, where others may change them.
-/

namespace TieredMemory

structure Disk where
  places : Std.TreeMap String Location := ∅

namespace Disk

def find (d : Disk) (path : String) : Location := d.places.getD path .vacant

def put (d : Disk) (path : String) (place : Location) : Disk := ⟨d.places.insert path place⟩

def truncate (d : Disk) (path : String) (size : Nat) : Disk :=
  match d.find path with
  | .file bytes => d.put path (.file (bytes.resize size))
  | _ => d

end Disk

abbrev HeldHierarchy := Hierarchy EmulatedMemory

structure Handles where
  next : Nat := 1
  live : Std.TreeMap Nat HeldHierarchy := ∅
  disk : Disk := {}

namespace Handles

variable {α : Type}

def status : Except Error α → Int
  | .ok _ => 0
  | .error _ => -1

def onDisk (op : Op HeldHierarchy α) (h : HeldHierarchy) (disk : Disk) :
    Except Error α × HeldHierarchy × Disk :=
  let path := h.config.pagefile
  let bytes := (disk.find path).bytes?.getD (.zeros 0)
  let (_, h) := h.editFile (·.swapBytes bytes)
  let (r, h) := op h
  let (bytes, h) := h.editFile (·.swapBytes (.zeros 0))
  (r, h, disk.put path (.file bytes))

def call (handle : Nat) (op : Op HeldHierarchy α) : StateM Handles (Except Error α) := fun s =>
  match s.live[handle]? with
  | none => (.error (.invalidHandle handle), s)
  | some h =>
    let (r, h, disk) := onDisk op h s.disk
    (r, { s with live := s.live.insert handle h, disk })

def create (path : Option ByteArray) (maximumSize : Nat) (himem psram ram : TierShape) :
    StateM Handles Nat := fun s =>
  match path.bind String.fromUTF8? with
  | none => (0, s)
  | some pagefile =>
    let config := { pagefile, maximumSize, ram, psram, himem, syncOnFlush := false }
    match Hierarchy.create config ({} : EmulatedProvider) (s.disk.find pagefile) with
    | .error refusal => (0, { s with disk := s.disk.put pagefile refusal.place })
    | .ok h =>
      let (bytes, h) := h.editFile (·.swapBytes (.zeros 0))
      (s.next, {
        next := s.next + 1
        live := s.live.insert s.next h
        disk := s.disk.put pagefile (.file bytes) })

def read (handle address : Nat) (room : Option Nat) : StateM Handles (Int × ByteArray) := do
  match room with
  | none => return (-1, ByteArray.empty)
  | some length =>
    let r ← call handle (Hierarchy.read address length)
    return (status r, r.toOption.getD ByteArray.empty)

def write (handle address : Nat) (data : Option ByteArray) : StateM Handles Int := do
  match data with
  | none => return -1
  | some data => return status (← call handle (Hierarchy.write address data))

def flush (handle : Nat) : StateM Handles Int := do
  return status (← call handle Hierarchy.flush)

def destroy (handle : Nat) : StateM Handles Int := fun s =>
  match s.live[handle]? with
  | none => (-1, s)
  | some h =>
    let (r, _, disk) := onDisk Hierarchy.destroy h s.disk
    (status r, { s with live := s.live.erase handle, disk })

end Handles

end TieredMemory
