/-!
A doubly linked list threaded through an array of slots, ordered from the newest node to the
oldest. Slots that were given back are reused, the last one first.
-/

namespace TieredMemory.Recency

structure Node (α : Type) where
  key : Nat
  value : α
  newer : Option Nat := none
  older : Option Nat := none

structure Arena (α : Type) where
  nodes : Array (Option (Node α)) := #[]
  vacant : List Nat := []
  newest : Option Nat := none
  oldest : Option Nat := none

namespace Arena

variable {α : Type}

def node? (a : Arena α) (slot : Nat) : Option (Node α) := a.nodes[slot]?.join

def update (a : Arena α) (slot : Nat) (f : Node α → Node α) : Arena α :=
  { a with nodes := a.nodes.modify slot (·.map f) }

def link (a : Arena α) (slot : Nat) : Arena α :=
  let head := a.newest
  let a := a.update slot fun n => { n with newer := none, older := head }
  match head with
  | some first =>
    { a.update first (fun n => { n with newer := some slot }) with newest := some slot }
  | none => { a with newest := some slot, oldest := some slot }

def unlink (a : Arena α) (slot : Nat) : Arena α :=
  match (a.node? slot).map fun n => (n.newer, n.older) with
  | none => a
  | some (newer, older) =>
    let a := match newer with
      | some s => a.update s fun n => { n with older := older }
      | none => { a with newest := older }
    let a := match older with
      | some s => a.update s fun n => { n with newer := newer }
      | none => { a with oldest := newer }
    a.update slot fun n => { n with newer := none, older := none }

def moveToFront (a : Arena α) (slot : Nat) : Arena α :=
  if a.newest = some slot then a else (a.unlink slot).link slot

def place (a : Arena α) (n : Node α) : Nat × Arena α :=
  match a.vacant with
  | slot :: rest => (slot, { a with nodes := a.nodes.setIfInBounds slot (some n), vacant := rest })
  | [] => (a.nodes.size, { a with nodes := a.nodes.push (some n) })

def insert (a : Arena α) (key : Nat) (value : α) : Nat × Arena α :=
  let (slot, a) := a.place { key, value }
  (slot, a.link slot)

def remove (a : Arena α) (slot : Nat) : Arena α :=
  let ⟨nodes, vacant, newest, oldest⟩ := a.unlink slot
  { nodes := nodes.setIfInBounds slot none, vacant := slot :: vacant, newest, oldest }

def setValue (a : Arena α) (slot : Nat) (value : α) : Arena α :=
  a.update slot fun n => { n with value }

def walk (a : Arena α) : (n : Nat) → (cursor : Option Nat) → List (Node α)
  | 0, _ => []
  | _ + 1, none => []
  | n + 1, some slot =>
    match a.node? slot with
    | some node => node :: a.walk n node.older
    | none => []

def toList (a : Arena α) : List (Node α) := a.walk a.nodes.size a.newest

end Arena

end TieredMemory.Recency
