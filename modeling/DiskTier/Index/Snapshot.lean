import DiskTier.Element.Codec
import DiskTier.Index

/-!
# Snapshots

A snapshot is the compact JSON list of an index's entries, oldest first. Reading one inserts its
entries in turn, so that of too many the newest stay.
-/

namespace DiskTier

open Json

namespace Slot

def toJson (s : Slot) : Value :=
  .record [("offset", .natural s.offset.toNat), ("length", .natural s.length.toNat)]

/-- The members of a slot that have come. -/
structure Parts where
  offset : Option UInt64 := none
  length : Option UInt32 := none

def reader : Reader Slot :=
  .record [
    .required "offset" (·.offset) (fun v p => { p with offset := some v }) .word64,
    .required "length" (·.length) (fun v p => { p with length := some v }) .word32]
    ({} : Parts)
    fun p => do pure { offset := ← p.offset, length := ← p.length }

end Slot

namespace Index

namespace Snapshot

def entryToJson (e : Key × Slot) : Value :=
  .record [("key", e.1.toJson), ("descriptor", e.2.toJson)]

structure EntryParts where
  key : Option Key := none
  slot : Option Slot := none

def entryReader : Reader (Key × Slot) :=
  .record [
    .required "key" (·.key) (fun v p => { p with key := some v }) Key.reader,
    .required "descriptor" (·.slot) (fun v p => { p with slot := some v }) Slot.reader]
    ({} : EntryParts)
    fun p => do pure (← p.key, ← p.slot)

/-- The entries as bytes. -/
def encode (entries : List (Key × Slot)) : Bytes := (Value.list (entries.map entryToJson)).render

/-- The entries that `bytes` list. -/
def decode (bytes : Bytes) : Except Fault (List (Key × Slot)) :=
  (Reader.list entryReader).whole bytes

end Snapshot

/-- The whole index as bytes. -/
def snapshot (i : Index) : Bytes := Snapshot.encode i.toList

/-- The index of capacity `capacity` that a snapshot describes, and the slots that found no place
in it. -/
def ofSnapshot (bytes : Bytes) (capacity : Nat) : Except Fault (List (Key × Slot) × Index) :=
  (Index.empty capacity).insertAll <$> Snapshot.decode bytes

end Index

end DiskTier
