import TieredMemory.Error
import TieredMemory.Block.Device

/-!
The shape of a hierarchy: its page file and the page size and page count of its three tiers.
-/

namespace TieredMemory

inductive Profile where
  | tiny
  | small
  | large
  deriving DecidableEq, Repr

structure TierShape where
  pageSize : Nat
  pages : Nat
  deriving DecidableEq, Repr

structure Config where
  pagefile : String
  maximumSize : Nat
  ram : TierShape
  psram : TierShape
  himem : TierShape
  syncOnFlush : Bool
  deriving DecidableEq, Repr

namespace Profile

def name : Profile → String
  | tiny => "tiny"
  | small => "small"
  | large => "large"

def ofName? : String → Option Profile
  | "tiny" => some tiny
  | "small" => some small
  | "large" => some large
  | _ => none

/-- Upper-case letters read as lower-case ones. No character outside ASCII has a lower-case form
that occurs in a name. -/
def parse (s : String) : Except Error Profile :=
  match ofName? (String.ofList (s.toList.map Char.toLower)) with
  | some p => .ok p
  | none => .error (.config s!"Invalid profile: {s}")

def config : Profile → Config
  | tiny => ⟨"pagefile.bin", 1024 * 1024, ⟨16, 16⟩, ⟨24, 24⟩, ⟨32, 32⟩, false⟩
  | small => ⟨"pagefile.bin", 2 * 1024 * 1024, ⟨128, 32⟩, ⟨128, 32⟩, ⟨128, 32⟩, false⟩
  | large => ⟨"pagefile.bin", 64 * 1024 * 1024, ⟨1024, 64⟩, ⟨2048, 256⟩, ⟨4096, 512⟩, true⟩

end Profile

namespace TierShape

def residentBytes (t : TierShape) : Nat := t.pageSize * t.pages

def validate (t : TierShape) (tier : String) : Except Error Unit :=
  if t.pageSize = 0 then .error (.config s!"{tier} page size must be non-zero")
  else if t.pages = 0 then .error (.config s!"{tier} page count must be non-zero")
  else .ok ()

end TierShape

namespace Config

def validate (c : Config) : Except Error Unit := do
  if c.pagefile = "" then throw (.config "pagefile must be set")
  if c.maximumSize = 0 then throw (.config "maximum_size must be non-zero")
  c.ram.validate "ram"
  c.psram.validate "psram"
  c.himem.validate "himem"
  if BlockDevice.blockLimit < c.himem.pages then
    throw (.config s!"himem page count {c.himem.pages} exceeds {BlockDevice.blockLimit}")

end Config

inductive Setting where
  | pagefile (path : String)
  | maximumSize (bytes : Nat)
  | ram (shape : TierShape)
  | psram (shape : TierShape)
  | himem (shape : TierShape)
  | syncOnFlush (sync : Bool)
  deriving DecidableEq, Repr

namespace Config

def apply (c : Config) : Setting → Config
  | .pagefile pagefile => { c with pagefile }
  | .maximumSize maximumSize => { c with maximumSize }
  | .ram ram => { c with ram }
  | .psram psram => { c with psram }
  | .himem himem => { c with himem }
  | .syncOnFlush syncOnFlush => { c with syncOnFlush }

def build (p : Profile) (settings : List Setting) : Except Error Config := do
  let c := settings.foldl apply p.config
  c.validate
  return c

end Config

end TieredMemory
