import TieredMemory.Backend.PageFile
import TieredMemory.Block.Emulated
import TieredMemory.Config.Basic
import TieredMemory.Page.Cache

/-!
The memory hierarchy: three page caches over a page file, the upper two with their pages in
buffers and the lowest with its pages in blocks of a device. Clients meet the topmost tier only;
the others are reached through the misses and write-backs of the tier above.
-/

namespace TieredMemory

abbrev HimemTier (D : Type) := PageCache (BlockStorage D) Nat PageFile

abbrev PsramTier (D : Type) := PageCache HeapStorage ByteArray (HimemTier D)

abbrev RamTier (D : Type) := PageCache HeapStorage ByteArray (PsramTier D)

structure Hierarchy (D : Type) where
  ram : RamTier D
  config : Config
  client : Transfers := {}
  closed : Bool := false

/-- Why a hierarchy was not built, what is at the location of its page file by then, and what is
left of its provider or of the block storage made from it. -/
structure Refusal (P D : Type) where
  cause : Error
  place : Location
  remains : P ⊕ BlockStorage D

namespace Hierarchy

variable {P D α : Type}

def psram (h : Hierarchy D) : PsramTier D := h.ram.below

def himem (h : Hierarchy D) : HimemTier D := h.psram.below

def file (h : Hierarchy D) : PageFile := h.himem.below

def maximumSize (h : Hierarchy D) : Nat := h.config.maximumSize

def stats (h : Hierarchy D) : HierarchyStats where
  client := h.client
  ram := h.ram.stats
  psram := h.psram.stats
  himem := h.himem.stats
  file := h.file.stats

variable [BlockDevice D]

def editHimem (f : HimemTier D → α × HimemTier D) (h : Hierarchy D) : α × Hierarchy D :=
  let (a, ram) := h.ram.editBelow (PageCache.editBelow f)
  (a, { h with ram })

def editFile (f : PageFile → α × PageFile) : Hierarchy D → α × Hierarchy D :=
  editHimem (PageCache.editBelow f)

def stack [BlockProvider P D] (config : Config) (provider : P) (file : PageFile) :
    Except (Refusal P D) (Hierarchy D) :=
  match PageCache.himem "himem" config.himem.pageSize config.himem.pages provider file with
  | .error (e, remains, file) => .error ⟨e, .file file.bytes, remains⟩
  | .ok himem =>
    match PageCache.heap "psram" config.psram.pageSize config.psram.pages himem with
    | .error (e, _, himem) =>
      let left := himem.abandon
      .error ⟨e, .file left.below.bytes, .inr left.storage⟩
    | .ok psram =>
      match PageCache.heap "ram" config.ram.pageSize config.ram.pages psram with
      | .error (e, _, psram) =>
        let left := psram.below.abandon
        .error ⟨e, .file left.below.bytes, .inr left.storage⟩
      | .ok ram => .ok { ram, config }

def create [BlockProvider P D] (config : Config) (provider : P) (place : Location) :
    Except (Refusal P D) (Hierarchy D) :=
  match config.validate with
  | .error e => .error ⟨e, place, .inl provider⟩
  | .ok () =>
    let available := BlockProvider.maximumBlocks provider config.himem.pageSize
    if 0 < available ∧ available < config.himem.pages then
      .error ⟨.insufficientMemory config.himem.pages available, place, .inl provider⟩
    else
      match PageFile.create place config.maximumSize config.syncOnFlush with
      | .error (e, place) => .error ⟨e, place, .inl provider⟩
      | .ok file => stack config provider file

def onRam (op : Op (RamTier D) α) : Op (Hierarchy D) α := fun h =>
  let (r, ram) := op h.ram
  (r, { h with ram })

def record (f : Transfers → Transfers) : Op (Hierarchy D) Unit :=
  modify fun h => { h with client := f h.client }

def read (address length : Nat) : Op (Hierarchy D) ByteArray := fun h =>
  match checkRange address length (some h.maximumSize) with
  | .error e => (.error e, h)
  | .ok () => (do
      let bytes ← onRam (PageCache.read address length)
      record (·.recordRead length)
      return bytes) h

def write (address : Nat) (data : ByteArray) : Op (Hierarchy D) Unit := fun h =>
  match checkRange address data.size (some h.maximumSize) with
  | .error e => (.error e, h)
  | .ok () => (do
      onRam (PageCache.write address data)
      record (·.recordWrite data.size)) h

def flush : Op (Hierarchy D) Unit := onRam Backend.flush

def shutdown : Op (Hierarchy D) Unit := fun h =>
  if h.closed then (.ok (), h)
  else (do
    onRam Backend.flush
    onRam Backend.shutdown) { h with closed := true }

def release (h : Hierarchy D) : Hierarchy D :=
  (editHimem (fun c => ((), { c with pager := c.pager.abandon })) h).2

def destroy : Op (Hierarchy D) Unit := fun h =>
  let (r, h) := shutdown h
  (r, h.release)

def drop (h : Hierarchy D) : Hierarchy D := (destroy h).2

instance : Backend (Hierarchy D) where
  read := read
  write := write
  flush := flush
  shutdown := shutdown
  capacity h := some h.maximumSize
  events h := Backend.events h.ram

end Hierarchy

end TieredMemory
