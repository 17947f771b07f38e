namespace TieredMemory

structure Transfers where
  reads : Nat := 0
  writes : Nat := 0
  bytesRead : Nat := 0
  bytesWritten : Nat := 0
  deriving DecidableEq, Repr

namespace Transfers

def recordRead (t : Transfers) (length : Nat) : Transfers :=
  { t with reads := t.reads + 1, bytesRead := t.bytesRead + length }

def recordWrite (t : Transfers) (length : Nat) : Transfers :=
  { t with writes := t.writes + 1, bytesWritten := t.bytesWritten + length }

end Transfers

structure Lookups where
  hits : Nat := 0
  misses : Nat := 0
  evictions : Nat := 0
  inserts : Nat := 0
  deriving DecidableEq, Repr

structure WriteBacks where
  flushes : Nat := 0
  bytes : Nat := 0
  deriving DecidableEq, Repr

def WriteBacks.record (w : WriteBacks) (length : Nat) : WriteBacks :=
  ⟨w.flushes + 1, w.bytes + length⟩

def Lookups.hitRate (l : Lookups) : Float :=
  if l.hits + l.misses = 0 then 0.0
  else l.hits.toUInt64.toFloat / (l.hits + l.misses).toUInt64.toFloat

structure CacheStats where
  hits : Nat
  misses : Nat
  evictions : Nat
  inserts : Nat
  flushes : Nat
  bytesFlushed : Nat
  hitRate : Float

def CacheStats.of (l : Lookups) (w : WriteBacks) : CacheStats :=
  ⟨l.hits, l.misses, l.evictions, l.inserts, w.flushes, w.bytes, l.hitRate⟩

structure HierarchyStats where
  client : Transfers
  ram : CacheStats
  psram : CacheStats
  himem : CacheStats
  file : Transfers

end TieredMemory
