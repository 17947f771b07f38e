import TieredMemory.Counters
import TieredMemory.Json.Decode
import TieredMemory.Json.Document

namespace TieredMemory

open Json (Value Document)

namespace Transfers

def fileNames : List String := ["reads", "writes", "bytes_read", "bytes_written"]

def toJson (t : Transfers) : Document :=
  .record (fileNames.zip
    [.nat t.reads, .nat t.writes, .nat t.bytesRead, .nat t.bytesWritten])

def ofJson? (v : Value) : Option Transfers := do
  let [reads, writes, bytesRead, bytesWritten] ← (← Json.fields? fileNames v).mapM Json.word? | none
  return { reads, writes, bytesRead, bytesWritten }

end Transfers

namespace CacheStats

def countNames : List String :=
  ["hits", "misses", "evictions", "inserts", "flushes", "bytes_flushed"]

def toJson (rate : Float → Document) (s : CacheStats) : Document :=
  .record (countNames.zip
    [.nat s.hits, .nat s.misses, .nat s.evictions, .nat s.inserts, .nat s.flushes,
      .nat s.bytesFlushed] ++ [("hit_rate", rate s.hitRate)])

def ofJson? (v : Value) : Option CacheStats := do
  let fields ← Json.fields? (countNames ++ ["hit_rate"]) v
  let [hits, misses, evictions, inserts, flushes, bytesFlushed] ←
    (fields.take 6).mapM Json.word? | none
  let [hitRate] ← (fields.drop 6).mapM Json.double? | none
  return { hits, misses, evictions, inserts, flushes, bytesFlushed, hitRate }

end CacheStats

namespace HierarchyStats

def clientNames : List String := ["reads", "bytes_read", "writes", "bytes_written"]

def tierNames : List String := ["ram", "psram", "himem"]

def toJson (rate : Float → Document) (s : HierarchyStats) : Document :=
  .record (clientNames.zip
      [.nat s.client.reads, .nat s.client.bytesRead, .nat s.client.writes,
        .nat s.client.bytesWritten] ++
    tierNames.zip ([s.ram, s.psram, s.himem].map (CacheStats.toJson rate)) ++
    [("file", s.file.toJson)])

def ofJson? (v : Value) : Option HierarchyStats := do
  let fields ← Json.fields? (clientNames ++ tierNames ++ ["file"]) v
  let [reads, bytesRead, writes, bytesWritten] ← (fields.take 4).mapM Json.word? | none
  let [ram, psram, himem] ← ((fields.drop 4).take 3).mapM CacheStats.ofJson? | none
  let [file] ← (fields.drop 7).mapM Transfers.ofJson? | none
  return { client := { reads, writes, bytesRead, bytesWritten }, ram, psram, himem, file }

end HierarchyStats

end TieredMemory
