import TieredMemory.Config.Basic
import TieredMemory.Json.Decode
import TieredMemory.Json.Document

namespace TieredMemory

open Json (Value Document)

def Profile.ofJson? : Value → Option Profile
  | .text (some s) => Profile.ofName? s
  | .object [(some s, .null)] => Profile.ofName? s
  | _ => none

namespace TierShape

def toJson (t : TierShape) : Document :=
  .record [("page_size", .nat t.pageSize), ("pages", .nat t.pages)]

def ofJson? (v : Value) : Option TierShape := do
  let [pageSize, pages] ← Json.fields? ["page_size", "pages"] v | none
  return ⟨← Json.word? pageSize, ← Json.word? pages⟩

end TierShape

namespace Config

def toJson (c : Config) : Document :=
  .record [("pagefile", .text c.pagefile), ("maximum_size", .nat c.maximumSize),
    ("ram", c.ram.toJson), ("psram", c.psram.toJson), ("himem", c.himem.toJson),
    ("sync_on_flush", .flag c.syncOnFlush)]

def ofJson? (v : Value) : Option Config := do
  let [pagefile, maximumSize, ram, psram, himem, syncOnFlush] ←
    Json.fields? ["pagefile", "maximum_size", "ram", "psram", "himem", "sync_on_flush"] v | none
  return {
    pagefile := ← Json.string? pagefile
    maximumSize := ← Json.word? maximumSize
    ram := ← TierShape.ofJson? ram
    psram := ← TierShape.ofJson? psram
    himem := ← TierShape.ofJson? himem
    syncOnFlush := ← Json.flag? syncOnFlush }

end Config

end TieredMemory
