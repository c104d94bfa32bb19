import DiskTier.Json.Value

/-!
# Statistics

What a region is like at one moment.
-/

namespace DiskTier

/-- The counters of a region. -/
structure Stats where
  cacheName : String
  entryCount : Nat
  dataFileLength : Nat
  removals : Nat
  compactions : Nat
  reuses : Nat
  freeSlots : Nat
  hits : Nat
  misses : Nat
  alive : Bool
  deriving DecidableEq, Repr

namespace Stats

/-- The reads that found an element as a share of all; zero if there were none. The counts are added
as words of 64 bits. -/
def hitRate (s : Stats) : Float :=
  let hits := UInt64.ofNat s.hits
  let total := hits + UInt64.ofNat s.misses
  if total = 0 then 0 else hits.toFloat / total.toFloat

/-- The members of the counters as JSON. -/
def members (s : Stats) : List (String × Json.Value) :=
  [("cache_name", .text s.cacheName), ("entry_count", .natural s.entryCount),
    ("data_file_length", .natural s.dataFileLength), ("compaction_count", .natural s.removals),
    ("times_compacted", .natural s.compactions), ("recycle_count", .natural s.reuses),
    ("recycle_bin_size", .natural s.freeSlots), ("hits", .natural s.hits),
    ("misses", .natural s.misses), ("alive", .bool s.alive)]

end Stats

end DiskTier
