namespace TieredMemory

structure DirtyRange where
  start : Nat
  length : Nat
  deriving DecidableEq, Repr

namespace DirtyRange

def stop (r : DirtyRange) : Nat := r.start + r.length

def union (r : DirtyRange) (start length : Nat) : DirtyRange :=
  let low := min r.start start
  ⟨low, max r.stop (start + length) - low⟩

theorem start_union (r : DirtyRange) (start length : Nat) :
    (r.union start length).start = min r.start start := rfl

theorem stop_union (r : DirtyRange) (start length : Nat) :
    (r.union start length).stop = max r.stop (start + length) := by
  simp only [union, stop]
  omega

end DirtyRange

end TieredMemory
