import TieredMemory.Json.Reader
import TieredMemory.Text.Word

namespace TieredMemory.Json

def Numeral.isWhole (n : Numeral) : Bool := n.fraction.isEmpty && n.exponent.isNone

def wholeValue (ds : List Nat) : Nat := ds.foldl (fun n d => n * 10 + d) 0

def word? : Value → Option Nat
  | .number n =>
    let k := wholeValue n.whole
    if n.isWhole && !n.negative && k < Text.wordLimit then some k else none
  | _ => none

def flag? : Value → Option Bool
  | .flag b => some b
  | _ => none

def string? : Value → Option String
  | .text t => t
  | _ => none

def takeDigits : List Nat → (word taken : Nat) → Nat × Nat
  | [], word, taken => (word, taken)
  | d :: ds, word, taken =>
    if word * 10 + d < Text.wordLimit then takeDigits ds (word * 10 + d) (taken + 1)
    else (word, taken)

def maxPower : Nat := 308

def powerOfTen (k : Nat) : Float := Float.ofScientific 1 false k

def scaleDown : (steps : Nat) → Float → (k : Nat) → Float
  | 0, f, _ => f
  | steps + 1, f, k =>
    if k ≤ maxPower then f / powerOfTen k
    else if f == 0.0 then f
    else scaleDown steps (f / powerOfTen maxPower) (k - maxPower)

def scale (significand : Nat) (k : Int) : Option Float :=
  let f := significand.toUInt64.toFloat
  if k < 0 then some (scaleDown 4 f k.natAbs)
  else if k.natAbs ≤ maxPower then
    let f := f * powerOfTen k.natAbs
    if f.isInf then none else some f
  else if f == 0.0 then some f
  else none

def exponentLimit : Nat := 0x80000000

/-- The digits of a number make a word as far as they fit; the others only move the point. A
number that is no whole word is then scaled in double arithmetic. -/
def magnitude? (n : Numeral) : Option Float := do
  let (word, taken) := takeDigits n.whole 0 0
  let moved := n.whole.length - taken
  let (word, behind) := takeDigits n.fraction word 0
  let point : Int := (moved : Int) - (behind : Int)
  match n.exponent with
  | none =>
    if n.fraction.isEmpty && moved == 0 then some word.toUInt64.toFloat else scale word point
  | some (down, ds) =>
    let k := wholeValue ds
    if k < exponentLimit then scale word (if down then point - k else point + k)
    else if word ≠ 0 ∧ down = false then none
    else some 0.0

def double? : Value → Option Float
  | .number n => (magnitude? n).map fun f => if n.negative then -f else f
  | _ => none

def fields? (names : List String) : Value → Option (List Value)
  | .list items => if items.length = names.length then some items else none
  | .object members =>
    if members.all fun (name, _) => name.isSome then
      names.mapM fun name =>
        match members.filter fun (t, _) => t = some name with
        | [(_, v)] => some v
        | _ => none
    else none
  | _ => none

end TieredMemory.Json
