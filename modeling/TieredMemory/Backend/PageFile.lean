import TieredMemory.Backend.Basic
import TieredMemory.Counters
import TieredMemory.Faults
import TieredMemory.SparseBytes

/-!
The page file at the bottom of a hierarchy. A file is a growable byte sequence: a write past its
end fills the gap with zeros, and a read must find its whole range inside.
-/

namespace TieredMemory

inductive Obstacle where
  | missing
  | notDirectory
  | isDirectory
  | nameTooLong
  deriving DecidableEq, Repr

def Obstacle.message : Obstacle → String
  | missing => "No such file or directory (os error 2)"
  | notDirectory => "Not a directory (os error 20)"
  | isDirectory => "Is a directory (os error 21)"
  | nameTooLong => "File name too long (os error 36)"

inductive Location where
  | vacant
  | file (bytes : SparseBytes)
  | unreachable (why : Obstacle)
  deriving Inhabited

def Location.bytes? : Location → Option SparseBytes
  | .file bytes => some bytes
  | _ => none

structure PageFile where
  bytes : SparseBytes
  maximumSize : Nat
  syncOnFlush : Bool
  stats : Transfers := {}
  onRead : Faults := {}
  onWrite : Faults := {}
  onSync : Faults := {}

namespace PageFile

def sizeLimit : Nat := 0x8000000000000000

def create (place : Location) (maximumSize : Nat) (syncOnFlush : Bool) :
    Except (Error × Location) PageFile :=
  if maximumSize = 0 then
    .error (.invalidCapacity "page file size must be non-zero", place)
  else
    match place with
    | .unreachable why => .error (.io why.message, place)
    | _ =>
      if sizeLimit ≤ maximumSize then
        .error (.io "Invalid argument (os error 22)", .file (.zeros 0))
      else .ok { bytes := .zeros maximumSize, maximumSize, syncOnFlush }

def read (address length : Nat) : Op PageFile ByteArray := fun f =>
  match checkRange address length (some f.maximumSize) with
  | .error e => (.error e, f)
  | .ok () =>
    let (fails, onRead) := f.onRead.next
    let f := { f with onRead }
    if fails then (.error (.io "read failed"), f)
    else if 0 < length ∧ f.bytes.size < address + length then
      (.error (.io "failed to fill whole buffer"), f)
    else (.ok (f.bytes.slice address length), { f with stats := f.stats.recordRead length })

def write (address : Nat) (data : ByteArray) : Op PageFile Unit := fun f =>
  match checkRange address data.size (some f.maximumSize) with
  | .error e => (.error e, f)
  | .ok () =>
    let (fails, onWrite) := f.onWrite.next
    let f := { f with onWrite }
    if fails then (.error (.io "write failed"), f)
    else if data.size = 0 then (.ok (), { f with stats := f.stats.recordWrite 0 })
    else
      (.ok (), { f with
        bytes := f.bytes.patch address data, stats := f.stats.recordWrite data.size })

def flush : Op PageFile Unit := fun f =>
  if f.syncOnFlush then
    let (fails, onSync) := f.onSync.next
    let f := { f with onSync }
    if fails then (.error (.io "synchronisation failed"), f) else (.ok (), f)
  else (.ok (), f)

def truncate (f : PageFile) (size : Nat) : PageFile := { f with bytes := f.bytes.resize size }

def swapBytes (f : PageFile) (bytes : SparseBytes) : SparseBytes × PageFile :=
  (f.bytes, { f with bytes })

instance : Backend PageFile where
  read := read
  write := write
  flush := flush
  shutdown := flush
  capacity f := some f.maximumSize

end PageFile

end TieredMemory
