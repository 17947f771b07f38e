namespace TieredMemory.Text

def wordLimit : Nat := 0x10000000000000000

inductive WordFault where
  | empty
  | invalidDigit
  | tooLarge
  deriving DecidableEq, Repr

def WordFault.message : WordFault → String
  | .empty => "cannot parse integer from empty string"
  | .invalidDigit => "invalid digit found in string"
  | .tooLarge => "number too large to fit in target type"

def readDigits : List Char → (n : Nat) → Except WordFault Nat
  | [], n => .ok n
  | c :: cs, n =>
    if c.isDigit then
      let n := n * 10 + (c.toNat - '0'.toNat)
      if n < wordLimit then readDigits cs n else .error .tooLarge
    else .error .invalidDigit

def readWord (s : String) : Except WordFault Nat :=
  match s.toList with
  | [] => .error .empty
  | ['+'] => .error .invalidDigit
  | '+' :: cs => readDigits cs 0
  | cs => readDigits cs 0

end TieredMemory.Text
