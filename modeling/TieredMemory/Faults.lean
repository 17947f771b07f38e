/-!
Schedules that say which calls of one kind fail. They drive every wrapper that lets a device or a
file fail on purpose.
-/

namespace TieredMemory

/-- `due n` tells whether the `n`-th call counted from zero fails; `calls` are behind us. -/
structure Faults where
  due : Nat → Bool := fun _ => false
  calls : Nat := 0

namespace Faults

def burst (skip count : Nat) : Faults := { due := fun n => decide (skip ≤ n ∧ n < skip + count) }

def numbered (numbers : List Nat) : Faults := { due := fun n => numbers.contains (n + 1) }

def next (f : Faults) : Bool × Faults := (f.due f.calls, { f with calls := f.calls + 1 })

end Faults

end TieredMemory
