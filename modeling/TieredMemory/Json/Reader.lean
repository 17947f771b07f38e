import TieredMemory.Json.Value

/-!
Reading JSON. The grammar is the strict one: no comments, no trailing commas, no superfluous zeros,
and nothing but blanks after the value.
-/

namespace TieredMemory.Json

def dropBlank (cs : List Char) : List Char :=
  cs.dropWhile fun c => c = ' ' ∨ c = '\t' ∨ c = '\n' ∨ c = '\r'

def digits (cs : List Char) : List Nat × List Char :=
  ((cs.takeWhile Char.isDigit).map fun c => c.toNat - '0'.toNat, cs.dropWhile Char.isDigit)

def fraction : List Char → Option (List Nat × List Char)
  | '.' :: cs =>
    match digits cs with
    | ([], _) => none
    | (ds, rest) => some (ds, rest)
  | cs => some ([], cs)

def exponent (cs : List Char) : Option (Option (Bool × List Nat) × List Char) :=
  let afterSign (down : Bool) (cs : List Char) :=
    match digits cs with
    | ([], _) => none
    | (ds, rest) => some (some (down, ds), rest)
  let afterMark : List Char → Option (Option (Bool × List Nat) × List Char)
    | '+' :: cs => afterSign false cs
    | '-' :: cs => afterSign true cs
    | cs => afterSign false cs
  match cs with
  | 'e' :: cs => afterMark cs
  | 'E' :: cs => afterMark cs
  | cs => some (none, cs)

def unsigned (negative : Bool) (cs : List Char) : Option (Numeral × List Char) :=
  match digits cs with
  | ([], _) => none
  | (0 :: _ :: _, _) => none
  | (whole, cs) => do
    let (fraction, cs) ← fraction cs
    let (exponent, cs) ← exponent cs
    return ({ negative, whole, fraction, exponent }, cs)

def hexDigit? (c : Char) : Option Nat :=
  if '0' ≤ c ∧ c ≤ '9' then some (c.toNat - '0'.toNat)
  else if 'a' ≤ c ∧ c ≤ 'f' then some (c.toNat - 'a'.toNat + 10)
  else if 'A' ≤ c ∧ c ≤ 'F' then some (c.toNat - 'A'.toNat + 10)
  else none

def codeUnit? (a b c d : Char) : Option Nat := do
  let a ← hexDigit? a
  let b ← hexDigit? b
  let c ← hexDigit? c
  let d ← hexDigit? d
  return ((a * 16 + b) * 16 + c) * 16 + d

def isLeading (unit : Nat) : Bool := 0xd800 ≤ unit && unit < 0xdc00

def isTrailing (unit : Nat) : Bool := 0xdc00 ≤ unit && unit < 0xe000

def shortEscape? : Char → Option Char
  | '"' => some '"'
  | '\\' => some '\\'
  | '/' => some '/'
  | 'b' => some '\x08'
  | 'f' => some '\x0c'
  | 'n' => some '\n'
  | 'r' => some '\r'
  | 't' => some '\t'
  | _ => none

def stringUnits : List Char → Option (List (Nat ⊕ Char) × List Char)
  | [] => none
  | '"' :: cs => some ([], cs)
  | '\\' :: 'u' :: a :: b :: c :: d :: cs => do
    let unit ← codeUnit? a b c d
    let (units, rest) ← stringUnits cs
    return (.inl unit :: units, rest)
  | '\\' :: e :: cs => do
    let c ← shortEscape? e
    let (units, rest) ← stringUnits cs
    return (.inr c :: units, rest)
  | c :: cs =>
    if c = '\\' ∨ c.toNat < 0x20 then none
    else do
      let (units, rest) ← stringUnits cs
      return (.inr c :: units, rest)

def joinUnits : List (Nat ⊕ Char) → Option (List Char)
  | [] => some []
  | .inr c :: units => (joinUnits units).map (c :: ·)
  | [.inl unit] =>
    if isLeading unit || isTrailing unit then none else some [Char.ofNat unit]
  | .inl unit :: .inl next :: units =>
    if isTrailing unit then none
    else if isLeading unit then
      if isTrailing next then
        let c := Char.ofNat (0x10000 + (unit - 0xd800) * 0x400 + (next - 0xdc00))
        (joinUnits units).map (c :: ·)
      else none
    else (joinUnits (.inl next :: units)).map (Char.ofNat unit :: ·)
  | .inl unit :: .inr c :: units =>
    if isLeading unit || isTrailing unit then none
    else (joinUnits (.inr c :: units)).map (Char.ofNat unit :: ·)

def string (cs : List Char) : Option (Text × List Char) := do
  let (units, rest) ← stringUnits cs
  return ((joinUnits units).map String.ofList, rest)

def literal (word : String) (v : Value) (cs : List Char) : Option (Value × List Char) :=
  if word.toList.isPrefixOf cs then some (v, cs.drop word.length) else none

mutual

def value : (n : Nat) → List Char → Option (Value × List Char)
  | 0, _ => none
  | n + 1, cs =>
    match dropBlank cs with
    | '[' :: cs =>
      match dropBlank cs with
      | ']' :: cs => some (.list [], cs)
      | cs => (items n cs).map fun (vs, rest) => (.list vs, rest)
    | '\x7b' :: cs =>
      match dropBlank cs with
      | '\x7d' :: cs => some (.object [], cs)
      | cs => (members n cs).map fun (ms, rest) => (.object ms, rest)
    | '"' :: cs => (string cs).map fun (t, rest) => (.text t, rest)
    | '-' :: cs => (unsigned true cs).map fun (k, rest) => (.number k, rest)
    | 'n' :: cs => literal "ull" .null cs
    | 't' :: cs => literal "rue" (.flag true) cs
    | 'f' :: cs => literal "alse" (.flag false) cs
    | cs => (unsigned false cs).map fun (k, rest) => (.number k, rest)

def items : (n : Nat) → List Char → Option (List Value × List Char)
  | 0, _ => none
  | n + 1, cs => do
    let (v, cs) ← value n cs
    match dropBlank cs with
    | ',' :: cs =>
      let (vs, rest) ← items n cs
      return (v :: vs, rest)
    | ']' :: rest => return ([v], rest)
    | _ => none

def members : (n : Nat) → List Char → Option (List (Text × Value) × List Char)
  | 0, _ => none
  | n + 1, cs =>
    match dropBlank cs with
    | '"' :: cs => do
      let (name, cs) ← string cs
      match dropBlank cs with
      | ':' :: cs =>
        let (v, cs) ← value n cs
        match dropBlank cs with
        | ',' :: cs =>
          let (ms, rest) ← members n cs
          return ((name, v) :: ms, rest)
        | '\x7d' :: rest => return ([(name, v)], rest)
        | _ => none
      | _ => none
    | _ => none

end

def read (s : String) : Option Value :=
  let cs := s.toList
  match value (2 * cs.length + 2) cs with
  | some (v, rest) => if dropBlank rest = [] then some v else none
  | none => none

end TieredMemory.Json
