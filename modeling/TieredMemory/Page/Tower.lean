import TieredMemory.Block.Clipped
import TieredMemory.Block.Emulated
import TieredMemory.Block.Monitored
import TieredMemory.Block.Paged
import TieredMemory.Page.Cache

namespace TieredMemory

inductive StorageKind where
  | heap
  | emulated
  | clipped
  | paged
  deriving DecidableEq, Repr

namespace StorageKind

abbrev Store : StorageKind → Type
  | heap => HeapStorage
  | emulated => BlockStorage EmulatedMemory
  | clipped => BlockStorage (Clipped EmulatedMemory)
  | paged => BlockStorage (PagedMemory (Monitored SimulatedBanks))

abbrev Handle : StorageKind → Type
  | heap => ByteArray
  | emulated => Nat
  | clipped => Nat
  | paged => Nat

instance storage : (k : StorageKind) → PageStorage k.Store k.Handle
  | heap => inferInstanceAs (PageStorage HeapStorage ByteArray)
  | emulated => inferInstanceAs (PageStorage (BlockStorage EmulatedMemory) Nat)
  | clipped => inferInstanceAs (PageStorage (BlockStorage (Clipped EmulatedMemory)) Nat)
  | paged =>
    inferInstanceAs (PageStorage (BlockStorage (PagedMemory (Monitored SimulatedBanks))) Nat)

end StorageKind

abbrev Tower (B : Type) : List StorageKind → Type
  | [] => B
  | k :: ks => PageCache k.Store k.Handle (Tower B ks)

namespace Tower

variable {B : Type}

instance backend [Backend B] : (ks : List StorageKind) → Backend (Tower B ks)
  | [] => inferInstanceAs (Backend B)
  | k :: ks =>
    letI := backend ks
    inferInstanceAs (Backend (PageCache k.Store k.Handle (Tower B ks)))

abbrev Tier (B : Type) (k : StorageKind) (ks : List StorageKind) :=
  PageCache k.Store k.Handle (Tower B ks)

variable [Backend B] {α : Type}

def editBase (f : B → α × B) : (ks : List StorageKind) → Tower B ks → α × Tower B ks
  | [], b => f b
  | _ :: ks, c => PageCache.editBelow (editBase f ks) c

def editTier (f : (k : StorageKind) → (ks : List StorageKind) → Tier B k ks → α × Tier B k ks) :
    (ks : List StorageKind) → Nat → Tower B ks → Option α × Tower B ks
  | [], _, b => (none, b)
  | k :: ks, 0, c =>
    let (a, c) := f k ks c
    (some a, c)
  | _ :: ks, n + 1, c => PageCache.editBelow (editTier f ks n) c

end Tower

end TieredMemory
