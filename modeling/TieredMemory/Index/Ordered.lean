import Std.Data.TreeMap.Basic

namespace TieredMemory

abbrev OrderedIndex (α : Type) := Std.TreeMap Nat α

namespace OrderedIndex

variable {α : Type}

def take (t : OrderedIndex α) (key : Nat) : Option α × OrderedIndex α := (t[key]?, t.erase key)

end OrderedIndex

end TieredMemory
