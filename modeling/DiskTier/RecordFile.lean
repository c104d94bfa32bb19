import DiskTier.FileSystem.FileAction

/-!
# Record files

A file that is read and written at explicit offsets. The tracked length is where the next record is
appended; no read goes past it.
-/

namespace DiskTier

open FileSystem

/-- A file with the length that it is known to have. -/
structure RecordFile where
  path : Path
  /-- The number of the open file, until it is closed. -/
  handle : Option Nat
  length : UInt64
  deriving DecidableEq, Repr

namespace RecordFile

/-- Whether the file can be read and written. -/
def isOpen (f : RecordFile) : Bool := f.handle.isSome

/-- The open file; an error if it is closed. -/
def number (f : RecordFile) : Except FileError Nat :=
  match f.handle with
  | some n => .ok n
  | none => .error (.closed f.path)

/-! ### Looking -/

def read (f : RecordFile) (slot : Slot) : Action FileSystem FileError Bytes := do
  let n ← f.number
  if slot.isWithin f.length.toNat then (readAt n slot.start slot.length.toNat).lift
  else throw (.pastEnd slot f.path f.length)

def readAll (f : RecordFile) : Action FileSystem FileError Bytes :=
  if f.length.toNat ≤ Slot.maxLength then f.read { offset := 0, length := f.length.toUInt32 }
  else throw .tooLong

def sync (f : RecordFile) : Action FileSystem FileError Unit := do
  let n ← f.number
  (FileSystem.sync n).lift

/-! ### Changing -/

/-- An action on a record file. -/
abbrev Change (α : Type) : Type := FileAction RecordFile FileError α

/-- Opens the file at a path, which is made if there is none. -/
def openAt (path : Path) : Action FileSystem FileError RecordFile := do
  let n ← (openFile path).lift
  let size ← (fileSize n).lift
  pure { path, handle := some n, length := UInt64.ofNat size }

/-- The open file; an error if it is closed. -/
def openNumber : Change Nat := do (← FileAction.value).number

def truncate : Change Unit := do
  let n ← openNumber
  FileAction.onDisk .refused (resize n 0)
  FileAction.change fun f => { f with length := 0 }

/-- Opens the file at a path and forgets what it holds. -/
def createEmpty (path : Path) : Action FileSystem FileError RecordFile := do
  let f ← openAt path
  (·.2) <$> truncate.startingWith f

/-- The position behind `size` bytes at `offset`, as far as an offset can hold it. -/
def endOf (offset : UInt64) (size : Nat) : UInt64 :=
  UInt64.ofNat (min (offset.toNat + size) Slot.maxOffset)

def write (offset : UInt64) (bytes : Bytes) : Change Unit := do
  let n ← openNumber
  FileAction.onDisk .refused (writeAt n offset.toNat bytes)
  FileAction.change fun f => { f with length := max f.length (endOf offset bytes.length) }

/-- Writes bytes at the tracked length; the slot that they take. -/
def append (bytes : Bytes) : Change Slot := do
  let f ← FileAction.value
  match Slot.forRecord? f.length bytes with
  | none => throw (.recordTooLarge bytes.length)
  | some slot => do
    write slot.offset bytes
    pure slot

/-- Makes the file hold exactly these bytes. -/
def overwrite (bytes : Bytes) : Change Unit := do
  truncate
  write 0 bytes

/-- Forces the file to disk and gives it up, even if the first fails. A closed file is left
alone. -/
def close : Change Unit := do
  let f ← FileAction.value
  match f.handle with
  | none => pure ()
  | some n => do
    FileAction.change fun f => { f with handle := none }
    FileAction.onDisk .refused (FileSystem.sync n)

/-- Closes the file and takes its name away. -/
def delete (f : RecordFile) : Action FileSystem FileError Unit := do
  let (_, f) ← close.startingWith f
  (unlinkIfPresent f.path).lift

end RecordFile

end DiskTier
