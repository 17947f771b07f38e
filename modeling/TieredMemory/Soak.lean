import TieredMemory.Backend.Directory
import TieredMemory.Config.Environment
import TieredMemory.Config.Json
import TieredMemory.Hierarchy
import TieredMemory.Json.Stats

/-!
The soak run. It writes the hexadecimal text of every multiple of a step at that address, reads all
of them back, and does the same again five bytes further on. The run ends with the report of the
hierarchy, or with the first thing that went wrong.
-/

namespace TieredMemory.Soak

inductive Failure where
  | stepText (fault : Text.WordFault)
  | stepZero
  | refused (e : Error)
  | write (address : Nat) (e : Error)
  | read (address : Nat) (e : Error)
  | mismatch (address : Nat) (expected : String) (found : ByteArray)

def shown (c : Char) : String :=
  if c = '"' then "\\\""
  else if c = '\\' then "\\\\"
  else if c = '\t' then "\\t"
  else if c = '\n' then "\\n"
  else if c = '\r' then "\\r"
  else if c.toNat = 0 then "\\0"
  else if c.toNat < 0x20 ∨ c.toNat = 0x7f then "\\u\x7b" ++ hexadecimal c.toNat ++ "\x7d"
  else c.toString

def quoted (s : String) : String := "\"" ++ String.join (s.toList.map shown) ++ "\""

/-- Bytes as text; a byte outside ASCII in bytes that are no text becomes the replacement
character. -/
def lossyText (b : ByteArray) : String :=
  (String.fromUTF8? b).getD <|
    String.ofList (b.toList.map fun u => if u < 0x80 then Char.ofNat u.toNat else '\ufffd')

def Failure.chain : Failure → List String
  | stepText fault => ["step must be a positive integer", fault.message]
  | stepZero => ["step must be a positive integer"]
  | refused e => e.message :: cause e
  | write address e => s!"write at {addressText address}" :: e.message :: cause e
  | read address e => s!"read at {addressText address}" :: e.message :: cause e
  | mismatch address expected found =>
    let expected := quoted expected
    let found := quoted (lossyText found)
    [s!"mismatch at {addressText address}: expected {expected}, found {found}"]
where
  cause : Error → List String
    | .io reason => [reason]
    | _ => []

def numbered (causes : List String) : List String :=
  causes.mapIdx fun i cause => s!"    {i}: {cause}"

def Failure.report (f : Failure) : String :=
  match f.chain with
  | [] => "Error: \n"
  | [top] => s!"Error: {top}\n"
  | [top, cause] => s!"Error: {top}\n\nCaused by:\n    {cause}\n"
  | top :: causes =>
    let lines := String.intercalate "\n" (numbered causes)
    s!"Error: {top}\n\nCaused by:\n{lines}\n"

abbrev Step (M α : Type) := ExceptT Failure (StateM M) α

section Pass

variable {M : Type} [Backend M]

def mark? (limit shift address : Nat) : Option ByteArray :=
  let text := (hexadecimal address).toUTF8
  if address + shift + text.size ≤ limit then some text else none

def markCount (limit step : Nat) : Nat := (limit + (step - 1)) / step

def writeMarks (limit step shift : Nat) : (n address written : Nat) → Step M Nat
  | 0, _, written => pure written
  | n + 1, address, written => fun m =>
    match mark? limit shift address with
    | none => writeMarks limit step shift n (address + step) written m
    | some text =>
      match Backend.write (address + shift) text m with
      | (.error e, m) => (.error (.write (address + shift) e), m)
      | (.ok (), m) => writeMarks limit step shift n (address + step) (written + 1) m

def checkMarks (limit step shift : Nat) : (n address : Nat) → Step M Unit
  | 0, _ => pure ()
  | n + 1, address => fun m =>
    match mark? limit shift address with
    | none => checkMarks limit step shift n (address + step) m
    | some text =>
      match Backend.read (address + shift) text.size m with
      | (.error e, m) => (.error (.read (address + shift) e), m)
      | (.ok found, m) =>
        if found = text then checkMarks limit step shift n (address + step) m
        else (.error (.mismatch (address + shift) (hexadecimal address) found), m)

def pass (limit step shift : Nat) : Step M Nat := do
  let written ← writeMarks limit step shift (markCount limit step) 0 0
  checkMarks limit step shift (markCount limit step) 0
  return written

end Pass

variable {D : Type} [BlockDevice D]

def lift {α : Type} (op : Op (Hierarchy D) α) : Step (Hierarchy D) α := fun h =>
  match op h with
  | (.ok a, h) => (.ok a, h)
  | (.error e, h) => (.error (.refused e), h)

def exercise (step : Nat) : Step (Hierarchy D) HierarchyStats := fun h =>
  let limit := h.maximumSize
  (do
    let _ ← pass limit step 0
    let _ ← pass limit step 5
    lift Hierarchy.flush
    return (← get).stats) h

structure Outcome where
  stats : Option HierarchyStats := none
  failure : Option Failure := none
  file : Option (String × Location) := none

def readStep : List String → Except Failure Nat
  | [] => .ok 10
  | arg :: _ =>
    match Text.readWord arg with
    | .error fault => .error (.stepText fault)
    | .ok 0 => .error .stepZero
    | .ok step => .ok step

def runOn (step : Nat) (h : Hierarchy D) : Outcome :=
  let path := h.config.pagefile
  match exercise step h with
  | (.error failure, h) =>
    { failure := some failure, file := some (path, .file h.drop.file.bytes) }
  | (.ok stats, h) =>
    let (r, h) := Hierarchy.destroy h
    let failure := match r with
      | .ok () => none
      | .error e => some (.refused e)
    { stats := some stats, failure, file := some (path, .file h.file.bytes) }

def run (args : List String) (env : Config.Environment) (place : String → Location) : Outcome :=
  match readStep args with
  | .error failure => { failure := some failure }
  | .ok step =>
    match Config.ofEnvironment env with
    | .error e => { failure := some (.refused e) }
    | .ok config =>
      match Hierarchy.create config ({} : EmulatedProvider) (place config.pagefile) with
      | .error refusal =>
        { failure := some (.refused refusal.cause), file := some (config.pagefile, refusal.place) }
      | .ok h => runOn step h

def runIn (args : List String) (env : Config.Environment) (d : Directory) : Outcome × Directory :=
  let outcome := run args env d.find
  match outcome.file with
  | some (path, place) => (outcome, d.put path place)
  | none => (outcome, d)

namespace Outcome

def exitCode (o : Outcome) : Nat := if o.failure.isSome then 1 else 0

def output (rate : Float → Json.Document) (o : Outcome) : List String :=
  match o.stats with
  | some stats => (stats.toJson rate).lines
  | none => []

def errorText (o : Outcome) : String :=
  match o.failure with
  | some failure => failure.report
  | none => ""

end Outcome

end TieredMemory.Soak
