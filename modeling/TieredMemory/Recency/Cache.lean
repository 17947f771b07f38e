import TieredMemory.Operation
import TieredMemory.Counters
import TieredMemory.Index.Direct
import TieredMemory.Index.Ordered
import TieredMemory.Recency.Arena

/-!
Recency-ordered caches. Keys are looked up in a direct-mapped table first and in the ordered index
next; values live in an arena that keeps the order of use. A cache never evicts by itself, and it
meets the world below only through the three callbacks of its handler.
-/

namespace TieredMemory.Recency

/-- How a cache with values in `α` obtains, persists and gives up values, on a state `σ`.
Flushing may change the value, and a change stays also when it fails. -/
structure Handler (σ α : Type) where
  fault : (key : Nat) → Op σ α
  flush : (key : Nat) → Op (α × σ) Unit
  release : (key : Nat) → α → Op σ Unit

structure Cache (α : Type) where
  arena : Arena α := {}
  direct : DirectTable Nat
  index : OrderedIndex Nat := ∅
  count : Nat := 0
  lookups : Lookups := {}

namespace Cache

variable {α β σ : Type}

def empty (lines : Nat) (h : 0 < lines) : Cache α := { direct := .empty lines h }

def ofLines (lines : Nat) : Except Error (Cache α) := do
  let direct ← DirectTable.ofCapacity lines
  return { direct }

def isEmpty (c : Cache α) : Bool := c.count == 0

def slot? (c : Cache α) (key : Nat) : Option Nat := (c.direct.get? key).or c.index[key]?

def locate (c : Cache α) (key : Nat) : Option (Nat × Node α) := do
  let slot ← c.slot? key
  let node ← c.arena.node? slot
  return (slot, node)

def contains (c : Cache α) (key : Nat) : Bool := (c.locate key).isSome

def peek? (c : Cache α) (key : Nat) : Option α := (c.locate key).map fun (_, node) => node.value

def modify (c : Cache α) (key : Nat) (f : α → α) : Cache α :=
  match c.locate key with
  | some (slot, node) => { c with arena := c.arena.setValue slot (f node.value) }
  | none => c

def leastRecentNode? (c : Cache α) : Option (Nat × Node α) := do
  let slot ← c.arena.oldest
  let node ← c.arena.node? slot
  return (slot, node)

def leastRecent? (c : Cache α) : Option (Nat × α) :=
  c.leastRecentNode?.map fun (_, node) => (node.key, node.value)

def toList (c : Cache α) : List (Nat × α) := c.arena.toList.map fun node => (node.key, node.value)

def keysByRecency (c : Cache α) : List Nat := c.arena.toList.map Node.key

def insertFront (c : Cache α) (key : Nat) (value : α) : Cache α :=
  let (slot, arena) := c.arena.insert key value
  { c with
    arena, direct := c.direct.insert key slot, index := c.index.insert key slot,
    count := c.count + 1, lookups := { c.lookups with inserts := c.lookups.inserts + 1 } }

def refresh (c : Cache α) (slot key : Nat) (value : α) : Cache α :=
  { c with
    arena := (c.arena.setValue slot value).moveToFront slot, direct := c.direct.insert key slot }

def detach (c : Cache α) (slot key : Nat) : Cache α :=
  { c with
    arena := c.arena.remove slot, direct := c.direct.erase key, index := c.index.erase key,
    count := c.count - 1 }

def recordHit (c : Cache α) : Cache α :=
  { c with lookups := { c.lookups with hits := c.lookups.hits + 1 } }

def recordMiss (c : Cache α) : Cache α :=
  { c with lookups := { c.lookups with misses := c.lookups.misses + 1 } }

def recordEviction (c : Cache α) : Cache α :=
  { c with lookups := { c.lookups with evictions := c.lookups.evictions + 1 } }

def add (c : Cache α) (key : Nat) (value : α) : Option α × Cache α :=
  match c.locate key with
  | some (slot, node) => (some node.value, c.refresh slot key value)
  | none => (none, c.insertFront key value)

def access (h : Handler σ α) (key : Nat) (use : Op (α × σ) β) : Op (Cache α × σ) β := fun (c, s) =>
  match c.locate key with
  | some (slot, node) =>
    let c := c.recordHit
    let (r, value, s) := use (node.value, s)
    (r, c.refresh slot key value, s)
  | none =>
    let c := c.recordMiss
    match h.fault key s with
    | (.error e, s) => (.error e, c, s)
    | (.ok value, s) =>
      let (r, value, s) := use (value, s)
      (r, c.insertFront key value, s)

def get (h : Handler σ α) (key : Nat) : Op (Cache α × σ) α :=
  access h key fun (v, s) => (.ok v, v, s)

def flushNode (h : Handler σ α) (slot : Nat) (node : Node α) :
    Op (Cache α × σ) Unit := fun (c, s) =>
  let (r, value, s) := h.flush node.key (node.value, s)
  (r, { c with arena := c.arena.setValue slot value }, s)

def expel (h : Handler σ α) (slot : Nat) (node : Node α) : Op (Cache α × σ) Unit := fun (c, s) =>
  match h.flush node.key (node.value, s) with
  | (.error e, value, s) => (.error e, { c with arena := c.arena.setValue slot value }, s)
  | (.ok (), value, s) =>
    let c := c.detach slot node.key
    let (r, s) := h.release node.key value s
    (r, c, s)

def remove (h : Handler σ α) (key : Nat) : Op (Cache α × σ) Bool := fun (c, s) =>
  match c.locate key with
  | none => (.ok false, c, s)
  | some (slot, node) => (do expel h slot node; return true) (c, s)

def flushFrom (h : Handler σ α) : (n : Nat) → (cursor : Option Nat) → Op (Cache α × σ) Unit
  | 0, _ => pure ()
  | _ + 1, none => pure ()
  | n + 1, some slot => fun (c, s) =>
    match c.arena.node? slot with
    | none => (.ok (), c, s)
    | some node =>
      match flushNode h slot node (c, s) with
      | (.error e, t) => (.error e, t)
      | (.ok (), t) => flushFrom h n node.older t

def flushAll (h : Handler σ α) : Op (Cache α × σ) Unit := fun (c, s) =>
  flushFrom h c.arena.nodes.size c.arena.newest (c, s)

def evictLoop (h : Handler σ α) : (n done : Nat) → Op (Cache α × σ) Nat
  | 0, done => pure done
  | n + 1, done => fun (c, s) =>
    match c.leastRecentNode? with
    | none => (.ok done, c, s)
    | some (slot, node) =>
      match expel h slot node (c, s) with
      | (.error e, t) => (.error e, t)
      | (.ok (), c, s) => evictLoop h n (done + 1) (c.recordEviction, s)

def evict (h : Handler σ α) (n : Nat) : Op (Cache α × σ) Nat := evictLoop h n 0

def clear (h : Handler σ α) : Op (Cache α × σ) Nat := fun (c, s) => evict h c.count (c, s)

end Cache

end TieredMemory.Recency
