import TieredMemory.Decimal.Shortest
import TieredMemory.Soak

namespace TieredMemory.CommandLine

def variableNames : List String :=
  ["TIERMEM_PROFILE", "TIERMEM_PAGEFILE", "TIERMEM_MAXIMUM_SIZE", "TIERMEM_SYNC_ON_FLUSH",
    "TIERMEM_RAM_PAGE_SIZE", "TIERMEM_RAM_PAGES", "TIERMEM_PSRAM_PAGE_SIZE", "TIERMEM_PSRAM_PAGES",
    "TIERMEM_HIMEM_PAGE_SIZE", "TIERMEM_HIMEM_PAGES"]

def readEnvironment : IO Config.Environment := do
  let mut found : List (String × String) := []
  for key in variableNames do
    if let some value ← IO.getEnv key then
      found := (key, value) :: found
  let known := found
  return fun key => known.lookup key

def directory (path : String) : String :=
  let head := path.toList.reverse.dropWhile (· ≠ '/')
  if head.isEmpty then "." else String.ofList head.reverse

def isOpenable (path : String) : IO Bool := do
  try
    let _ ← IO.FS.Handle.mk path .read
    return true
  catch _ => return false

def locate (path : String) : IO Location := do
  if ← isOpenable path then
    try return .file (.ofByteArray (← IO.FS.readBinFile path))
    catch _ => return .unreachable .isDirectory
  else if ← isOpenable (directory path) then
    return if path.endsWith "/" then .unreachable .isDirectory else .vacant
  else return .unreachable .missing

def rate (f : Float) : Json.Document := .number (Decimal.text f)

end TieredMemory.CommandLine

open TieredMemory in
def main (args : List String) : IO UInt32 := do
  let env ← CommandLine.readEnvironment
  let place ← match Config.ofEnvironment env with
    | .ok config => CommandLine.locate config.pagefile
    | .error _ => pure .vacant
  let outcome := Soak.run args env fun _ => place
  if let some (path, .file bytes) := outcome.file then
    IO.FS.writeBinFile path bytes.toByteArray
  for line in outcome.output CommandLine.rate do
    IO.println line
  IO.eprint outcome.errorText
  return UInt32.ofNat outcome.exitCode
