namespace TieredMemory.Json

/-- The text of a string. There is none for a string with an escape that names half of a surrogate
pair: such a string may stand only where nobody looks at it. -/
abbrev Text := Option String

structure Numeral where
  negative : Bool
  whole : List Nat
  fraction : List Nat
  exponent : Option (Bool × List Nat)
  deriving DecidableEq, Repr

inductive Value where
  | null
  | flag (b : Bool)
  | number (n : Numeral)
  | text (t : Text)
  | list (items : List Value)
  | object (members : List (Text × Value))

end TieredMemory.Json
