import TieredMemory.Error

namespace TieredMemory

structure Line (α : Type) where
  key : Nat
  value : α

structure DirectTable (α : Type) where
  lines : Array (Option (Line α))
  capacity_pos : 0 < lines.size

namespace DirectTable

variable {α : Type}

def empty (capacity : Nat) (h : 0 < capacity) : DirectTable α :=
  ⟨Array.replicate capacity none, by simpa using h⟩

def ofCapacity (capacity : Nat) : Except Error (DirectTable α) :=
  if h : 0 < capacity then .ok (empty capacity h)
  else .error (.invalidCapacity "direct cache needs at least one slot")

def capacity (t : DirectTable α) : Nat := t.lines.size

def slot (t : DirectTable α) (key : Nat) : Nat := key % t.lines.size

theorem slot_lt (t : DirectTable α) (key : Nat) : t.slot key < t.lines.size :=
  Nat.mod_lt key t.capacity_pos

def line? (t : DirectTable α) (key : Nat) : Option (Line α) :=
  have := t.slot_lt key
  t.lines[t.slot key]

def get? (t : DirectTable α) (key : Nat) : Option α :=
  match t.line? key with
  | some l => if l.key = key then some l.value else none
  | none => none

def putLine (t : DirectTable α) (key : Nat) (l : Option (Line α)) : DirectTable α :=
  have := t.slot_lt key
  ⟨t.lines.set (t.slot key) l, by simpa using t.capacity_pos⟩

def insert (t : DirectTable α) (key : Nat) (value : α) : DirectTable α :=
  t.putLine key (some ⟨key, value⟩)

def erase (t : DirectTable α) (key : Nat) : DirectTable α :=
  match t.get? key with
  | some _ => t.putLine key none
  | none => t

def clear (t : DirectTable α) : DirectTable α := empty t.lines.size t.capacity_pos

end DirectTable

end TieredMemory
