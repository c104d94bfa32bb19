import DiskTier.Compaction.Pass
import DiskTier.Stats
import DiskTier.Text.Sorted

/-!
# Regions

A region is a store with its settings, its counters, and at most one compaction pass under way. It
is alive from its opening until it is disposed of, and never again.

Each action below that looks at the store is one hold of the lock, `get` apart, which takes it a
second time after a failure. The removals since the last compaction are counted, and a compaction is
requested once there are as many as the settings say.
-/

namespace DiskTier

/-- One open region. -/
structure Region where
  config : Config
  store : Store
  /-- Whether the region serves. -/
  alive : Bool
  /-- Whether the files have been closed for good. -/
  closed : Bool
  /-- Whether a compaction is requested or under way. -/
  compacting : Bool
  removals : Nat
  compactions : Nat
  reuses : Nat
  hits : Nat
  misses : Nat
  /-- The compaction pass under way. -/
  pass : Option Pass

namespace Region

/-- An action on a region and its files. -/
abbrev Change (α : Type) : Type := FileAction Region Error α

/-- An action on the store of the region. -/
def onStore (x : Store.Change α) : Change α :=
  x.onPart (·.store) (fun s r => { r with store := s }) id

/-- A change of the region alone, with an answer. -/
def change (f : Region → α × Region) : Change α := do
  let r ← FileAction.value
  FileAction.change fun _ => (f r).2
  pure (f r).1

/-! ### Opening -/

/-- Opens the region that the settings describe. A draft that a compaction left behind is removed
first. -/
def openAt (c : Config) : Action FileSystem Error Region := do
  c.validate
  (FileSystem.createDirectories c.diskPath).lift.failingAs .file
  (FileSystem.unlinkIfPresent c.draftFile).lift.failingAs .file
  let store ← Store.openAt c
  pure { config := c, store, alive := true, closed := false, compacting := false, removals := 0,
         compactions := 0, reuses := 0, hits := 0, misses := 0, pass := none }

/-! ### Elements -/

/-- Refuses a region that is not alive. -/
def requireAlive : Change Unit := do
  let r ← FileAction.value
  if r.alive then pure () else throw (.notAlive r.config.cacheName)

/-- Stores an element in place of the one that its key has. -/
def put (e : Element) : Change Unit := do
  requireAlive
  if ← onStore (Store.write e.key e.encode) then
    FileAction.change fun r => { r with reuses := r.reuses + 1 }

def reset : Change Unit := do
  requireAlive
  onStore Store.reset

/-- Reads the element of a key and counts the outcome. A region that is not alive has none. -/
def lookup (k : Key) : Change (Option Element) := do
  let r ← FileAction.value
  if r.alive then
    match ← (FileAction.onDisk id (r.store.read k)).attempt with
    | .ok (some e) => do
      FileAction.change fun r => { r with hits := r.hits + 1 }
      pure (some e)
    | .ok none => do
      FileAction.change fun r => { r with misses := r.misses + 1 }
      pure none
    | .error e => do
      FileAction.change fun r => { r with misses := r.misses + 1 }
      throw e
  else pure none

/-- Reads the element of a key. If the record cannot be trusted, the region is emptied. -/
def get (k : Key) : Change (Option Element) := do
  match ← (lookup k).attempt with
  | .ok found => pure found
  | .error e => do
    reset.regardless
    throw e

/-- The names of the attributes of a group of this region. -/
def groupKeys (r : Region) (groupName : String) : List String :=
  let g : GroupId := { cacheName := r.config.cacheName, groupName }
  Text.sortedDistinct (r.store.index.keys.filterMap (·.attributeOf? g))

def size (r : Region) : Nat := r.store.index.size

def stats (r : Region) : Stats :=
  { cacheName := r.config.cacheName
    entryCount := r.size
    dataFileLength := r.store.dataFile.length.toNat
    removals := r.removals
    compactions := r.compactions
    reuses := r.reuses
    freeSlots := r.store.free.count
    hits := r.hits
    misses := r.misses
    alive := r.alive }

/-- Writes the snapshot of the index. -/
def saveKeys : Change Unit := do
  requireAlive
  onStore Store.saveKeys

/-! ### Requesting compactions -/

/-- Requests a compaction unless there is one; whether it did. -/
def requestCompaction (r : Region) : Bool × Region :=
  if r.compacting then (false, r)
  else (true, { r with compacting := true, pass := some .requested })

/-- Whether the removals call for a compaction. -/
def isCompactionDue (r : Region) : Bool :=
  r.config.compactAtRemovals > 0 && r.removals ≥ r.config.compactAtRemovals

/-- Counts a removal, and requests a compaction if that makes it due. -/
def countRemoval (r : Region) : Region :=
  let r := { r with removals := r.removals + 1 }
  if r.isCompactionDue then r.requestCompaction.2 else r

/-- Removes what `f` removes from the store; whether there was anything. -/
def removeBy (r : Region) (f : Store → Bool × Store) : Bool × Region :=
  if r.alive then
    match f r.store with
    | (true, s) => (true, { r with store := s }.countRemoval)
    | (false, s) => (false, { r with store := s })
  else (false, r)

/-- Removes a key, or every name below it if it addresses a hierarchy. -/
def remove (r : Region) (k : Key) : Bool × Region := r.removeBy (·.remove k)

def removeGroup (r : Region) (g : GroupId) : Bool × Region := r.removeBy (·.removeGroup g)

/-! ### Compacting -/

/-- Notes that a compaction has ended; whether it was carried through. -/
def endCompaction (installed : Bool) (r : Region) : Region :=
  { r with
    compacting := false
    removals := 0
    compactions := if installed then r.compactions + 1 else r.compactions
    pass := none }

/-- One hold of the pass under way, if there is one. -/
def holdPass (arrange : List Key → List Key) : StateM (FileSystem × Region) Unit :=
  modify fun (d, r) =>
    match r.pass with
    | none => (d, r)
    | some pass =>
      let (progress, (d, s)) := (pass.hold arrange r.config.draftFile r.alive).run (d, r.store)
      let r := { r with store := s }
      match progress with
      | .next pass => (d, { r with pass := some pass })
      | .over installed => (d, r.endCompaction installed)

/-- How many holds the pass under way can still take. -/
def holdsLeft (r : Region) : Nat :=
  match r.pass with
  | none => 0
  | some pass => pass.bound r.size

/-! ### Disposing -/

/-- Compacts, unless the region is not alive or a pass is under way; whether that succeeded. -/
def compactForGood : Change Bool := do
  let r ← FileAction.value
  if r.alive && !r.compacting then
    FileAction.change fun r => { r with compacting := true }
    match ← (onStore (Store.compactAtOnce r.config.draftFile)).attempt with
    | .ok () => do
      FileAction.change (endCompaction true)
      pure true
    | .error _ => do
      FileAction.change (endCompaction false)
      pure false
  else pure false

/-- Saves what can be saved, closes the files and ends the region's life. Does nothing the second
time. -/
def shutDown : Change Unit := do
  let r ← FileAction.value
  if r.closed then pure ()
  else do
    FileAction.change fun r => { r with closed := true }
    if !(← compactForGood) then (onStore Store.saveKeys).regardless
    let outcome ← (onStore Store.close).attempt
    FileAction.change fun r => { r with alive := false }
    outcome

end Region

end DiskTier
