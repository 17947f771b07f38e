import TieredMemory.Block.Device
import TieredMemory.Block.BankSwitch

/-!
Blocks in bank-switched memory. A block size divides the superblock size, so that no block lies in
two superblocks, and each access first maps the superblock of its block.
-/

namespace TieredMemory

structure PagedProvider (D : Type) where
  driver : D

structure PagedMemory (D : Type) where
  driver : D
  blockSize : Nat
  maxBlocks : Nat
  mapped : Option Nat := none
  remaps : Nat := 0
  released : Bool := false

namespace PagedMemory

def blockAlignment : Nat := 1024

def checkBlockSize (size : Nat) : Except Error Unit :=
  if size = 0 ∨ size % blockAlignment ≠ 0 then
    .error (.invalidBlockSize s!"{size} is not a non-zero multiple of {blockAlignment}")
  else if superblockSize < size then
    .error (.invalidBlockSize s!"{size} exceeds superblock size {superblockSize}")
  else if superblockSize % size ≠ 0 then
    .error (.invalidBlockSize s!"{size} does not divide superblock size {superblockSize}")
  else .ok ()

def superblocksNeeded (blockSize blocks : Nat) : Nat :=
  (blockSize * blocks + (superblockSize - 1)) / superblockSize

variable {D : Type} [BankSwitch D]

def mapSuperblock (superblock : Nat) : Op (PagedMemory D) Unit := fun m =>
  let enter : Op (PagedMemory D) Unit := fun m =>
    match BankSwitch.map (superblock * superblockSize) m.driver with
    | (.error e, driver) => (.error e, { m with driver })
    | (.ok (), driver) =>
      (.ok (), { m with driver, mapped := some superblock, remaps := m.remaps + 1 })
  match m.mapped with
  | none => enter m
  | some current =>
    if current = superblock then (.ok (), m)
    else
      match BankSwitch.unmap m.driver with
      | (.error e, driver) => (.error e, { m with driver })
      | (.ok (), driver) => enter { m with driver, mapped := none }

def locate (block : Nat) : Op (PagedMemory D) Nat := fun m =>
  let position := block * m.blockSize
  match mapSuperblock (position / superblockSize) m with
  | (.error e, m) => (.error e, m)
  | (.ok (), m) => (.ok (position % superblockSize), m)

def read (block offset length : Nat) : Op (PagedMemory D) (Nat × ByteArray) := fun m =>
  match BlockDevice.checkAccess block m.maxBlocks m.blockSize offset length with
  | .error e => (.error e, m)
  | .ok () =>
    match locate block m with
    | (.error e, m) => (.error e, m)
    | (.ok start, m) =>
      (.ok (length, Bytes.slice (BankSwitch.window m.driver) (start + offset) length), m)

def write (block offset : Nat) (data : ByteArray) : Op (PagedMemory D) Nat := fun m =>
  match BlockDevice.checkAccess block m.maxBlocks m.blockSize offset data.size with
  | .error e => (.error e, m)
  | .ok () =>
    match locate block m with
    | (.error e, m) => (.error e, m)
    | (.ok start, m) =>
      (.ok data.size, { m with
        driver := BankSwitch.editWindow (Bytes.patch · (start + offset) data) m.driver })

/-- Unmaps the window and frees the memory, once; memory that stays mapped is not freed. -/
def release : Op (PagedMemory D) Unit := fun m =>
  if m.released then (.ok (), m)
  else
    let free : Op (PagedMemory D) Unit := fun m =>
      let (r, driver) := BankSwitch.free m.driver
      (r, { m with driver })
    let mapped := m.mapped
    let m := { m with released := true, mapped := none }
    match mapped with
    | none => free m
    | some _ =>
      match BankSwitch.unmap m.driver with
      | (.error e, driver) => (.error e, { m with driver })
      | (.ok (), driver) => free { m with driver }

def abandon (m : PagedMemory D) : PagedMemory D := (release m).2

instance : BlockDevice (PagedMemory D) where
  blockSize m := m.blockSize
  maxBlocks m := m.maxBlocks
  read := read
  write := write
  close := release
  abandon := abandon
  events m := BankSwitch.events m.driver

def clearSuperblocks : (n first : Nat) → Op (PagedMemory D) Unit
  | 0, _ => pure ()
  | n + 1, first => do
    mapSuperblock first
    modify fun m => { m with
      driver := BankSwitch.editWindow (fun w => Bytes.zeros w.size) m.driver }
    clearSuperblocks n (first + 1)

end PagedMemory

namespace PagedProvider

variable {D : Type} [BankSwitch D]

def maximumBlocks (p : PagedProvider D) (blockSize : Nat) : Nat :=
  match PagedMemory.checkBlockSize blockSize with
  | .error _ => 0
  | .ok () => min (BankSwitch.freeSize p.driver / blockSize) BlockDevice.blockLimit

def init (p : PagedProvider D) (blockSize blocks : Nat) :
    Except (Error × PagedProvider D) (PagedMemory D) :=
  match PagedMemory.checkBlockSize blockSize with
  | .error e => .error (e, p)
  | .ok () =>
    if p.maximumBlocks blockSize < blocks then
      .error (.insufficientMemory blocks (p.maximumBlocks blockSize), p)
    else if BankSwitch.reservedSize p.driver < superblockSize then
      .error (.reservedSpaceTooSmall (BankSwitch.reservedSize p.driver) superblockSize, p)
    else
      let superblocks := PagedMemory.superblocksNeeded blockSize blocks
      match BankSwitch.alloc (superblocks * superblockSize) p.driver with
      | (.error e, driver) => .error (e, ⟨driver⟩)
      | (.ok (), driver) =>
        match PagedMemory.clearSuperblocks superblocks 0
          { driver, blockSize, maxBlocks := blocks } with
        | (.ok (), m) => .ok m
        | (.error e, m) => .error (e, ⟨m.abandon.driver⟩)

instance : BlockProvider (PagedProvider D) (PagedMemory D) where
  maximumBlocks := maximumBlocks
  init := init
  events p := BankSwitch.events p.driver

end PagedProvider

end TieredMemory
