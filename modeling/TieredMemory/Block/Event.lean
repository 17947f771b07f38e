namespace TieredMemory

inductive BankCall where
  | alloc (bytes : Nat)
  | free
  | map (offset : Nat)
  | unmap
  deriving DecidableEq, Repr

structure BankEvent where
  call : BankCall
  succeeded : Bool
  deriving DecidableEq, Repr

abbrev BankLog := Array BankEvent

namespace BankLog

def follow (log : BankLog) (seen : Nat) (source : BankLog) : BankLog := log ++ source.extract seen

theorem follow_size (log source : BankLog) : log.follow source.size source = log := by
  simp [follow]

end BankLog

end TieredMemory
