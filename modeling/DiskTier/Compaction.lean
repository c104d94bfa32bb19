import DiskTier.Compaction.Draft

/-!
# Compaction

`install` puts a filled draft in the place of the data file. Until the live data file is closed
nothing of the store is lost; a failure after the draft is closed resets the store, so that its
index never describes a file other than the one it has open.

`compactAtOnce` is a whole compaction while nobody else uses the store.
-/

namespace DiskTier.Store

/-- Makes the file at `draftFile` the data file and `index` the index. In between the key file is
empty, so a process that stops there opens an empty region. -/
def replace (draftFile : Path) (index : Index) : Change Unit := do
  let s ← FileAction.value
  let _ ← FileAction.onDisk .file (FileSystem.sizeAt draftFile).lift
  onKeys RecordFile.truncate
  onData RecordFile.close
  FileAction.onDisk .file (FileSystem.rename draftFile s.dataFile.path).lift
  let dataFile ← FileAction.onDisk .file (RecordFile.openAt s.dataFile.path)
  FileAction.change fun s => { s with dataFile, index, free := .empty s.free.capacity }
  saveKeys

def installDraft (d : Draft) : Change Unit := do
  let index := d.indexFor (← FileAction.value)
  match ← (FileAction.onDisk .file (RecordFile.close.startingWith d.file)).attempt with
  | .error e => do
    FileAction.onDisk id { d with file.handle := none }.abandon
    throw e
  | .ok _ =>
    match ← (replace d.file.path index).attempt with
    | .error e => do
      reset
      throw e
    | .ok () => pure ()

/-- Copies every record into a draft at `draftFile` and installs that. -/
def compactAtOnce (draftFile : Path) : Change Unit := do
  let d ← FileAction.onDisk id (Draft.begin draftFile)
  let s ← FileAction.value
  match ← (FileAction.onDisk id (d.copyAll s s.index.keys)).attempt with
  | .error e => do
    FileAction.onDisk id d.abandon
    throw e
  | .ok d => installDraft d

end DiskTier.Store
