import DiskTier.Config
import DiskTier.FreeList
import DiskTier.Index.Snapshot
import DiskTier.RecordFile

/-!
# The store

The two files of a region with the index and the free list that describe the data file. All of it
is guarded by one lock, so the actions below happen one at a time.

A record is written where the key's old one lies if it fits there, else into the shortest free slot
that is long enough, else at the end of the data file. The data file never shrinks by this, and the
key file is what `saveKeys` last wrote.
-/

namespace DiskTier

/-- What the lock of a region guards. -/
structure Store where
  cacheName : String
  /-- Holds the records. -/
  dataFile : RecordFile
  keyFile : RecordFile
  index : Index
  free : FreeList
  /-- The keys written since a compaction began to collect them, first to last. -/
  pending : Option (List Key)
  /-- How many resets there were. -/
  generation : Nat

namespace Store

/-- An action on the store and its files. -/
abbrev Change (α : Type) : Type := FileAction Store Error α

def onData (x : RecordFile.Change α) : Change α :=
  x.onPart (·.dataFile) (fun f s => { s with dataFile := f }) .file

def onKeys (x : RecordFile.Change α) : Change α :=
  x.onPart (·.keyFile) (fun f s => { s with keyFile := f }) .file

/-! ### Elements -/

/-- Reads the element of a key. The record must be one of that key. -/
def read (s : Store) (k : Key) : Action FileSystem Error (Option Element) :=
  match s.index.get? k with
  | none => pure none
  | some slot => do
    let record ← (s.dataFile.read slot).failingAs .file
    match Element.decode record with
    | .error fault => throw (.codec fault)
    | .ok element =>
      if element.key = k then pure (some element)
      else throw (.corrupted k.text s!"record at {slot.offset} holds key '{element.key.text}'")

/-- Where a record goes. -/
inductive Place where
  /-- Where the key's old record lies. -/
  | old (slot : Slot)
  /-- Into a slot that was free; what stays free without it. -/
  | reused (slot : Slot) (free : FreeList)
  /-- At the end of the data file. -/
  | tail (offset : UInt64)

namespace Place

def offset : Place → UInt64
  | .old slot => slot.offset
  | .reused slot _ => slot.offset
  | .tail offset => offset

def isReused : Place → Bool
  | .reused _ _ => true
  | _ => false

end Place

/-- The place for a record of a key. -/
def place (s : Store) (k : Key) (length : UInt32) : Place :=
  match (s.index.get? k).filter (length ≤ ·.length) with
  | some slot => .old slot
  | none =>
    match s.free.reserve? length with
    | some (slot, free) => .reused slot free
    | none => .tail s.dataFile.length

/-- Takes the free slot that a place uses out of the free list. -/
def claim (s : Store) : Place → Store
  | .reused _ free => { s with free }
  | _ => s

/-- Gives the free slot that a place uses back. -/
def unclaim (s : Store) : Place → Store
  | .reused slot _ => { s with free := (s.free.release slot).2 }
  | _ => s

/-- Notes that the record of a key now lies in `slot`. Slots that no key uses any more become free,
those of evicted keys first. -/
def install (s : Store) (k : Key) (slot : Slot) : Store :=
  let step := s.index.insert k slot
  let left := step.previous.filter (·.offset ≠ slot.offset)
  { s with
    index := step.index
    free := s.free.releaseAll (step.evicted.map (·.2) ++ left.toList)
    pending := s.pending.map (· ++ [k]) }

/-- Writes a record for a key; also whether a free slot was used. -/
def write (k : Key) (record : Bytes) : Change Bool := do
  match Slot.lengthOf? record with
  | none => throw (.recordTooLarge record.length)
  | some length => do
    let place := (← FileAction.value).place k length
    FileAction.change (·.claim place)
    match ← (onData (RecordFile.write place.offset record)).attempt with
    | .error e => do
      FileAction.change (·.unclaim place)
      throw e
    | .ok () => do
      FileAction.change (·.install k { offset := place.offset, length })
      pure place.isReused

/-- Forgets the keys of which `p` holds; their slots become free, oldest key first. Also whether
there were any. -/
def removeWhere (s : Store) (p : Key → Bool) : Bool × Store :=
  let (removed, index) := s.index.removeWhere p
  (!removed.isEmpty, { s with index, free := s.free.releaseAll (removed.map (·.2)) })

/-- Forgets a key, or every name below it if it addresses a hierarchy. -/
def remove (s : Store) (k : Key) : Bool × Store :=
  match k.hierarchy? with
  | some start => s.removeWhere (·.isUnder start)
  | none =>
    match s.index.remove k with
    | (none, _) => (false, s)
    | (some slot, index) => (true, { s with index, free := (s.free.release slot).2 })

def removeGroup (s : Store) (g : GroupId) : Bool × Store := s.removeWhere (·.isAttributeOf g)

/-! ### The files -/

/-- Writes a snapshot of the index to the key file; an empty index leaves it empty. -/
def saveKeys : Change Unit := do
  let s ← FileAction.value
  if s.index.isEmpty then onKeys RecordFile.truncate
  else onKeys (RecordFile.overwrite s.index.snapshot)
  let s ← FileAction.value
  FileAction.onDisk .file s.keyFile.sync

/-- Forgets all keys and free slots. -/
def forget (s : Store) : Store :=
  { s with
    index := .empty s.index.capacity
    free := .empty s.free.capacity
    pending := none
    generation := s.generation + 1 }

/-- Forgets everything and makes both files anew. -/
def reset : Change Unit := do
  FileAction.change forget
  (onData RecordFile.close).regardless
  (onKeys RecordFile.close).regardless
  let s ← FileAction.value
  FileAction.onDisk .file (FileSystem.unlinkIfPresent s.dataFile.path).lift
  FileAction.onDisk .file (FileSystem.unlinkIfPresent s.keyFile.path).lift
  let dataFile ← FileAction.onDisk .file (RecordFile.openAt s.dataFile.path)
  FileAction.change fun s => { s with dataFile }
  let keyFile ← FileAction.onDisk .file (RecordFile.openAt s.keyFile.path)
  FileAction.change fun s => { s with keyFile }

def close : Change Unit := do
  onData RecordFile.close
  onKeys RecordFile.close

/-! ### Opening -/

/-- The index and the free list that the key file describes. One that cannot be read describes
nothing. -/
def loadKeys (c : Config) (keyFile : RecordFile) : Action FileSystem Error (FreeList × Index) := do
  let nothing := (FreeList.empty c.maxFreeSlots, Index.empty c.maxKeys)
  if keyFile.length = 0 then pure nothing
  else
    match ← keyFile.readAll.attempt with
    | .error _ => pure nothing
    | .ok bytes =>
      match Index.ofSnapshot bytes c.maxKeys with
      | .error _ => pure nothing
      | .ok (dropped, index) => pure (nothing.1.releaseAll (dropped.map (·.2)), index)

/-- Whether every slot of the index lies within the data file. -/
def isConsistent (s : Store) : Bool :=
  s.index.toList.all fun e => e.2.isWithin s.dataFile.length.toNat

/-- Whether the files have to be made anew before use: the index is empty and they are not, or it
leads outside the data file. -/
def needsReset (s : Store) : Bool :=
  if s.index.isEmpty then s.dataFile.length > 0 || s.keyFile.length > 0 else !s.isConsistent

/-- Opens the files of a region and finds its keys again. -/
def openAt (c : Config) : Action FileSystem Error Store := do
  let dataFile ← (RecordFile.openAt c.dataFile).failingAs .file
  let keyFile ← (RecordFile.openAt c.keyFile).failingAs .file
  let (free, index) ← loadKeys c keyFile
  let s : Store :=
    { cacheName := c.cacheName, dataFile, keyFile, index, free, pending := none, generation := 0 }
  if s.needsReset then (·.2) <$> reset.startingWith s else pure s

end Store

end DiskTier
