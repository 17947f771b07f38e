namespace TieredMemory.Decimal

/-- A finite double without its sign, as `significand * 2 ^ exponent`. At the lower end of a binade
the next double below is only half as far away as the next one above. -/
structure Binary where
  significand : Nat
  exponent : Int
  lowerEnd : Bool

def fractionLimit : Nat := 0x10000000000000

def fieldLimit : Nat := 0x800

def Binary.ofBits (bits : UInt64) : Binary :=
  let fraction : Nat := bits.toNat % fractionLimit
  let field : Nat := bits.toNat / fractionLimit % fieldLimit
  if field = 0 then ⟨fraction, -1074, false⟩
  else ⟨fractionLimit + fraction, (field : Int) - 1075, fraction = 0 ∧ 1 < field⟩

structure Digits where
  digits : Nat
  exponent : Int
  deriving DecidableEq, Repr

/-- The multiple of `10 ^ k` next to `b` among those that round to it: the one below or the one
above, and the even one of two that are equally near. Everything is measured in quarters of the
last place of `b`. -/
def Binary.onGrid? (b : Binary) (k : Int) : Option Nat :=
  let two := b.exponent - 2
  let scale (quarters : Nat) : Nat := quarters * Nat.pow 2 two.toNat * Nat.pow 10 (-k).toNat
  let unit : Nat := Nat.pow 10 k.toNat * Nat.pow 2 (-two).toNat
  let value := scale (4 * b.significand)
  let low := scale (if b.lowerEnd then 4 * b.significand - 1 else 4 * b.significand - 2)
  let high := scale (4 * b.significand + 2)
  let rounds (d : Nat) : Bool :=
    if b.significand % 2 = 0 then low ≤ d * unit && d * unit ≤ high
    else low < d * unit && d * unit < high
  let below := value / unit
  let above := below + 1
  let remainder := value % unit
  let nearer :=
    if 2 * remainder < unit ∨ (2 * remainder = unit ∧ below % 2 = 0) then below else above
  let farther := if nearer = below then above else below
  if nearer ≠ 0 ∧ rounds nearer then some nearer
  else if farther ≠ 0 ∧ rounds farther then some farther
  else none

def Binary.searchGrids (b : Binary) : (n : Nat) → (k : Int) → Digits
  | 0, k => ⟨0, k⟩
  | n + 1, k =>
    match b.onGrid? k with
    | some d => ⟨d, k⟩
    | none => b.searchGrids n (k - 1)

def Binary.shortest (b : Binary) : Digits := b.searchGrids 640 309

def zeros (n : Nat) : String := String.ofList (List.replicate n '0')

def Digits.text (d : Digits) : String :=
  let ds := toString d.digits
  let n := ds.length
  let point : Int := n + d.exponent
  let tail (k : Nat) : String := String.ofList (ds.toList.drop k)
  let head (k : Nat) : String := String.ofList (ds.toList.take k)
  if 0 ≤ d.exponent ∧ point ≤ 16 then ds ++ zeros d.exponent.toNat ++ ".0"
  else if 0 < point ∧ point ≤ 16 then head point.toNat ++ "." ++ tail point.toNat
  else if -5 < point ∧ point ≤ 0 then "0." ++ zeros (-point).toNat ++ ds
  else if n = 1 then ds ++ "e" ++ toString (point - 1)
  else head 1 ++ "." ++ tail 1 ++ "e" ++ toString (point - 1)

def text (f : Float) : String :=
  let sign := if f.toBits.toNat / (fractionLimit * fieldLimit) = 1 then "-" else ""
  let b := Binary.ofBits f.toBits
  if b.significand = 0 then sign ++ "0.0" else sign ++ b.shortest.text

end TieredMemory.Decimal
