import DiskTier.Store

/-!
# Drafts

A compaction copies the live records one by one into a second data file, the draft, with an index of
its own. The region goes on with its own files until the draft is installed in their place.

The index of a draft is unbounded: a key that was removed while the draft was filled stays in it to
the end, and must not drive out one that is live.
-/

namespace DiskTier

/-- The data file and index that a compaction fills. -/
structure Draft where
  file : RecordFile
  index : Index

namespace Draft

/-- An empty draft at a path; whatever lies there is lost. -/
def begin (path : Path) : Action FileSystem Error Draft := do
  let file ← (RecordFile.createEmpty path).failingAs .file
  pure { file, index := .empty Index.unbounded }

/-- Copies the record that a key has in the store. A key that the store does not hold is
forgotten. -/
def copy (d : Draft) (live : Store) (k : Key) : Action FileSystem Error Draft :=
  match live.index.get? k with
  | none => pure { d with index := (d.index.remove k).2 }
  | some slot => do
    let record ← (live.dataFile.read slot).failingAs .file
    let (copied, file) ← ((RecordFile.append record).startingWith d.file).failingAs .file
    pure { file, index := (d.index.insert k copied).index }

def copyAll (d : Draft) (live : Store) : List Key → Action FileSystem Error Draft
  | [] => pure d
  | k :: ks => do (← d.copy live k).copyAll live ks

/-- Gives the draft up and takes its file away, as far as that is possible. -/
def abandon (d : Draft) : Action FileSystem Error Unit := d.file.delete.regardless

/-- The index that the draft gives to a store: it holds no key that the store has lost. -/
def indexFor (d : Draft) (live : Store) : Index :=
  ((d.index.removeWhere fun k => !live.index.contains k).2.setCapacity live.index.capacity).2

end Draft

end DiskTier
