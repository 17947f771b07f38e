import TieredMemory.Backend.Basic
import TieredMemory.Page.Dirty
import TieredMemory.Page.Storage
import TieredMemory.Recency.Cache

/-!
Page caches. A page cache keeps some fixed-size pages of the store below it resident, one range of
modified bytes for each, and writes back that range when the page is flushed or evicted. It is a
store itself, so tiers are stacked by ownership.
-/

namespace TieredMemory

structure Page (H : Type) where
  handle : H
  dirty : Option DirtyRange := none

structure Pager (S B : Type) where
  name : String
  pageSize : Nat
  pageSize_pos : 0 < pageSize
  storage : S
  below : B
  writeBacks : WriteBacks := {}
  events : BankLog := #[]

namespace Pager

variable {S H B α : Type}

@[noinline] def followStorage [PageStorage S H] (seen : Nat) (f : S → α × S) (p : Pager S B) :
    α × Pager S B :=
  let (a, storage) := f p.storage
  (a, { p with storage, events := p.events.follow seen (PageStorage.events storage) })

@[noinline] def followBelow [Backend B] (seen : Nat) (f : B → α × B) (p : Pager S B) :
    α × Pager S B :=
  let (a, below) := f p.below
  (a, { p with below, events := p.events.follow seen (Backend.events below) })

def onStorage [PageStorage S H] (op : Op S α) : Op (Pager S B) α := fun p =>
  p.followStorage (PageStorage.events p.storage).size op

def onHandle [PageStorage S H] (op : Op (H × S) α) : Op (H × Pager S B) α := fun (handle, p) =>
  let ((r, handle), p) := p.followStorage (PageStorage.events p.storage).size fun s =>
    let (r, handle, s) := op (handle, s)
    ((r, handle), s)
  (r, handle, p)

def editBelow [Backend B] (f : B → α × B) (p : Pager S B) : α × Pager S B :=
  p.followBelow (Backend.events p.below).size f

def onBelow [Backend B] (op : Op B α) : Op (Pager S B) α := editBelow op

def pageAddress (p : Pager S B) (number : Nat) : Nat := number * p.pageSize

def record (length : Nat) : Op (Pager S B) Unit :=
  modify fun p => { p with writeBacks := p.writeBacks.record length }

variable [PageStorage S H] [Backend B]

def readable (p : Pager S B) (number : Nat) : Nat :=
  match Backend.capacity p.below with
  | some limit => min (limit - p.pageAddress number) p.pageSize
  | none => p.pageSize

def fetch (number : Nat) : Op (Pager S B) ByteArray := fun p =>
  let size := p.pageSize
  let address := p.pageAddress number
  let length := p.readable number
  if length = 0 then (.ok (Bytes.zeros size), p)
  else
    match onBelow (Backend.read address length) p with
    | (.error e, p) => (.error e, p)
    | (.ok bytes, p) => (.ok (Bytes.padTo bytes size), p)

def load (number : Nat) : Op (H × Pager S B) Unit := fun (handle, p) =>
  match fetch number p with
  | (.error e, p) => (.error e, handle, p)
  | (.ok bytes, p) => onHandle (PageStorage.write 0 bytes) (handle, p)

def fault (number : Nat) : Op (Pager S B) (Page H) := fun p =>
  match onStorage PageStorage.acquire p with
  | (.error e, p) => (.error e, p)
  | (.ok handle, p) =>
    match load number (handle, p) with
    | (.ok (), handle, p) => (.ok { handle }, p)
    | (.error e, handle, p) =>
      match onStorage (PageStorage.release handle) p with
      | (.error e, p) => (.error e, p)
      | (.ok (), p) => (.error e, p)

def writeBack (number : Nat) (handle : H) (range : DirtyRange) : Op (Pager S B) Unit := fun p =>
  let address := p.pageAddress number + range.start
  (do
    let bytes ← onStorage (PageStorage.read handle range.start range.length)
    onBelow (Backend.write address bytes)
    record range.length) p

def flush (number : Nat) : Op (Page H × Pager S B) Unit := fun (page, p) =>
  match page.dirty with
  | none => (.ok (), page, p)
  | some range =>
    match writeBack number page.handle range p with
    | (.error e, p) => (.error e, page, p)
    | (.ok (), p) => (.ok (), { page with dirty := none }, p)

def abandon (p : Pager S B) : Pager S B := (onStorage (modify PageStorage.abandon) p).2

def handler : Recency.Handler (Pager S B) (Page H) where
  fault := fault
  flush := flush
  release _ page := onStorage (PageStorage.release page.handle)

def readPage (offset length : Nat) : Op (Page H × Pager S B) ByteArray := fun (page, p) =>
  let (r, p) := onStorage (PageStorage.read page.handle offset length) p
  (r, page, p)

def writePage (offset : Nat) (data : ByteArray) : Op (Page H × Pager S B) Unit := fun (page, p) =>
  match onHandle (PageStorage.write offset data) (page.handle, p) with
  | (.error e, handle, p) => (.error e, { page with handle }, p)
  | (.ok (), handle, p) =>
    let range := match page.dirty with
      | some range => range.union offset data.size
      | none => ⟨offset, data.size⟩
    (.ok (), { handle, dirty := some range }, p)

end Pager

structure Piece where
  page : Nat
  offset : Nat
  length : Nat
  deriving DecidableEq, Repr

def pieces (pageSize address length : Nat) : List Piece :=
  if length = 0 then []
  else
    let first := address / pageSize
    let last := (address + length - 1) / pageSize
    (List.range' first (last + 1 - first)).map fun page =>
      let start := max address (page * pageSize)
      let stop := min (address + length) ((page + 1) * pageSize)
      ⟨page, start - page * pageSize, stop - start⟩

structure PageCache (S H B : Type) where
  cache : Recency.Cache (Page H)
  pager : Pager S B
  capacity : Nat
  capacity_pos : 0 < capacity

namespace PageCache

variable {S H B D P α : Type}

def create [PageStorage S H] [Backend B] (name : String) (pageSize capacity : Nat) (storage : S)
    (below : B) : Except (Error × S × B) (PageCache S H B) :=
  if hp : 0 < pageSize then
    if hc : 0 < capacity then
      .ok {
        cache := .empty capacity hc
        pager := {
          name, pageSize, pageSize_pos := hp, storage, below
          events := Backend.events below ++ PageStorage.events storage }
        capacity
        capacity_pos := hc }
    else
      .error (.invalidCapacity s!"{name}: capacity must be non-zero",
        PageStorage.abandon storage, below)
  else
    .error (.invalidCapacity s!"{name}: page size must be non-zero",
      PageStorage.abandon storage, below)

def onCache (op : Op (Recency.Cache (Page H) × Pager S B) α) : Op (PageCache S H B) α := fun c =>
  let (r, cache, pager) := op (c.cache, c.pager)
  (r, { c with cache, pager })

def editBelow [Backend B] (f : B → α × B) (c : PageCache S H B) : α × PageCache S H B :=
  let (a, pager) := c.pager.editBelow f
  (a, { c with pager })

def onBelow [Backend B] (op : Op B α) : Op (PageCache S H B) α := editBelow op

def name (c : PageCache S H B) : String := c.pager.name

def pageSize (c : PageCache S H B) : Nat := c.pager.pageSize

def storage (c : PageCache S H B) : S := c.pager.storage

def below (c : PageCache S H B) : B := c.pager.below

def residentPages (c : PageCache S H B) : Nat := c.cache.count

def isResident (c : PageCache S H B) (page : Nat) : Bool := c.cache.contains page

def dirtyRange? (c : PageCache S H B) (page : Nat) : Option DirtyRange :=
  (c.cache.peek? page).bind Page.dirty

def residentBelow (c : PageCache S H B) (n : Nat) : List (Nat × Option DirtyRange) :=
  ((List.range n).filter c.isResident).map fun page => (page, c.dirtyRange? page)

def stats (c : PageCache S H B) : CacheStats := .of c.cache.lookups c.pager.writeBacks

variable [PageStorage S H] [Backend B]

def touch (page : Nat) (use : Op (Page H × Pager S B) α) : Op (PageCache S H B) α := fun c =>
  let full := c.cache.contains page = false ∧ c.capacity ≤ c.cache.count
  onCache (do
    if full then let _ ← Recency.Cache.evict Pager.handler 1
    Recency.Cache.access Pager.handler page use) c

def readPieces : List Piece → (read : ByteArray) → Op (PageCache S H B) ByteArray
  | [], read => pure read
  | piece :: rest, read => do
    let bytes ← touch piece.page (Pager.readPage piece.offset piece.length)
    readPieces rest (read ++ bytes)

def writePieces (data : ByteArray) : List Piece → (done : Nat) → Op (PageCache S H B) Unit
  | [], _ => pure ()
  | piece :: rest, done => do
    touch piece.page (Pager.writePage piece.offset (Bytes.slice data done piece.length))
    writePieces data rest (done + piece.length)

def read (address length : Nat) : Op (PageCache S H B) ByteArray := fun c =>
  match checkRange address length (Backend.capacity c.below) with
  | .error e => (.error e, c)
  | .ok () => readPieces (pieces c.pageSize address length) ByteArray.empty c

def write (address : Nat) (data : ByteArray) : Op (PageCache S H B) Unit := fun c =>
  match checkRange address data.size (Backend.capacity c.below) with
  | .error e => (.error e, c)
  | .ok () => writePieces data (pieces c.pageSize address data.size) 0 c

def flush : Op (PageCache S H B) Unit := onCache (Recency.Cache.flushAll Pager.handler)

def clear : Op (PageCache S H B) Unit := do
  let _ ← onCache (Recency.Cache.clear Pager.handler)

instance : Backend (PageCache S H B) where
  read := read
  write := write
  flush := do
    flush
    onBelow Backend.flush
  shutdown := do
    clear
    onBelow Backend.shutdown
  capacity c := Backend.capacity c.below
  events c := c.pager.events

def dismantle (c : PageCache S H B) : Except Error Unit × Pager S B :=
  match clear c with
  | (.error e, c) => (.error e, c.pager.abandon)
  | (.ok (), c) => Pager.onStorage PageStorage.close c.pager

def abandon (c : PageCache S H B) : Pager S B := c.pager.abandon

def heap (name : String) (pageSize capacity : Nat) (below : B) :
    Except (Error × HeapStorage × B) (PageCache HeapStorage ByteArray B) :=
  create name pageSize capacity ⟨pageSize⟩ below

def overBlocks [BlockProvider P D] [BlockDevice D] (name : String)
    (pageSize capacity blockSize blocks : Nat) (roomFor : Nat) (provider : P) (below : B) :
    Except (Error × (P ⊕ BlockStorage D) × B) (PageCache (BlockStorage D) Nat B) :=
  match Allocator.init provider blockSize blocks with
  | .error (e, provider) => .error (e, .inl provider, below)
  | .ok allocator =>
    match BlockStorage.ofAllocator allocator roomFor with
    | .error e => .error (e, .inr ⟨allocator.abandon⟩, below)
    | .ok storage =>
      match create name pageSize capacity storage below with
      | .error (e, storage, below) => .error (e, .inr storage, below)
      | .ok c => .ok c

def himem [BlockProvider P D] [BlockDevice D] (name : String) (pageSize capacity : Nat)
    (provider : P) (below : B) :
    Except (Error × (P ⊕ BlockStorage D) × B) (PageCache (BlockStorage D) Nat B) :=
  overBlocks name pageSize capacity pageSize capacity pageSize provider below

end PageCache

end TieredMemory
