import TieredMemory.Config.Basic
import TieredMemory.Text.Blank
import TieredMemory.Text.Word

namespace TieredMemory.Config

abbrev Environment := String → Option String

def flag? : String → Option Bool
  | "true" => some true
  | "false" => some false
  | _ => none

def number? (s : String) : Option Nat := (Text.readWord s).toOption

def readVariable {α : Type} (env : Environment) (parse : String → Option α) (key : String)
    (default : α) : Except Error α :=
  match env key with
  | none => .ok default
  | some value =>
    match parse (Text.trim value) with
    | some a => .ok a
    | none => .error (.config s!"Invalid {key}: {value}")

def readShape (env : Environment) (tier : String) (default : TierShape) :
    Except Error TierShape := do
  let pageSize ← readVariable env number? s!"{tier}_PAGE_SIZE" default.pageSize
  let pages ← readVariable env number? s!"{tier}_PAGES" default.pages
  return ⟨pageSize, pages⟩

def readProfile (env : Environment) : Except Error Profile :=
  match env "TIERMEM_PROFILE" with
  | some name => Profile.parse name
  | none => .ok .small

def override (env : Environment) (base : Config) : Except Error Config := do
  let pagefile := (env "TIERMEM_PAGEFILE").getD base.pagefile
  let maximumSize ← readVariable env number? "TIERMEM_MAXIMUM_SIZE" base.maximumSize
  let syncOnFlush ← readVariable env flag? "TIERMEM_SYNC_ON_FLUSH" base.syncOnFlush
  let ram ← readShape env "TIERMEM_RAM" base.ram
  let psram ← readShape env "TIERMEM_PSRAM" base.psram
  let himem ← readShape env "TIERMEM_HIMEM" base.himem
  return { pagefile, maximumSize, ram, psram, himem, syncOnFlush }

def ofEnvironment (env : Environment) : Except Error Config := do
  let profile ← readProfile env
  let c ← override env profile.config
  c.validate
  return c

end TieredMemory.Config
