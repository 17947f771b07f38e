import TieredMemory.Block.Allocator
import TieredMemory.Bytes

namespace TieredMemory

class PageStorage (S : Type) (H : outParam Type) where
  acquire : Op S H
  release : H → Op S Unit
  read : H → (offset length : Nat) → Op S ByteArray
  write : (offset : Nat) → (data : ByteArray) → Op (H × S) Unit
  close : Op S Unit
  abandon : S → S
  events : S → BankLog := fun _ => #[]

structure HeapStorage where
  pageSize : Nat

namespace HeapStorage

def checkBounds (pageSize offset length : Nat) : Except Error Unit :=
  if offset + length ≤ pageSize then .ok () else .error (.offsetOutOfBounds offset length pageSize)

def read (page : ByteArray) (offset length : Nat) : Op HeapStorage ByteArray := fun s =>
  match checkBounds s.pageSize offset length with
  | .error e => (.error e, s)
  | .ok () => (.ok (Bytes.slice page offset length), s)

def write (offset : Nat) (data : ByteArray) : Op (ByteArray × HeapStorage) Unit := fun (page, s) =>
  match checkBounds s.pageSize offset data.size with
  | .error e => (.error e, page, s)
  | .ok () => (.ok (), Bytes.patch page offset data, s)

instance : PageStorage HeapStorage ByteArray where
  acquire s := (.ok (Bytes.zeros s.pageSize), s)
  release _ := pure ()
  read := read
  write := write
  close := pure ()
  abandon s := s

end HeapStorage

structure BlockStorage (D : Type) where
  allocator : Allocator D

namespace BlockStorage

variable {D α : Type}

def onAllocator (op : Op (Allocator D) α) : Op (BlockStorage D) α := fun s =>
  let (r, allocator) := op s.allocator
  (r, { s with allocator })

def checkFull (transferred requested : Nat) : Except Error Unit :=
  if transferred = requested then .ok () else .error (.shortTransfer transferred requested)

variable [BlockDevice D]

def ofAllocator (allocator : Allocator D) (pageSize : Nat) : Except Error (BlockStorage D) :=
  if allocator.blockSize < pageSize then
    .error (.invalidBlockSize
      s!"block size {allocator.blockSize} cannot hold {pageSize}-byte pages")
  else .ok ⟨allocator⟩

def read (block offset length : Nat) : Op (BlockStorage D) ByteArray := do
  let (transferred, bytes) ← onAllocator (Allocator.read block offset length)
  Op.ofExcept (checkFull transferred length)
  return bytes

def write (block offset : Nat) (data : ByteArray) : Op (BlockStorage D) Unit := do
  let transferred ← onAllocator (Allocator.write block offset data)
  Op.ofExcept (checkFull transferred data.size)

instance : PageStorage (BlockStorage D) Nat where
  acquire := onAllocator Allocator.allocate
  release block := onAllocator (Allocator.free block)
  read := read
  write offset data := fun (block, s) =>
    let (r, s) := write block offset data s
    (r, block, s)
  close := onAllocator Allocator.close
  abandon s := { s with allocator := s.allocator.abandon }
  events s := BlockDevice.events s.allocator.device

end BlockStorage

end TieredMemory
