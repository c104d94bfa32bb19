import DiskTier.FileSystem.Basic
import DiskTier.Json.Reader
import DiskTier.Slot

/-!
# Errors

Two layers fail in their own ways: a record file, and the region above it. Each error is a cause;
its text is written by `message` alone.
-/

namespace DiskTier

/-! ### Files -/

/-- Why an operation on a record file fails. -/
inductive FileError where
  | refused (refusal : Refusal)
  | closed (path : Path)
  /-- The range reaches behind the end that the file is known to have. -/
  | pastEnd (slot : Slot) (path : Path) (length : UInt64)
  | tooLong
  /-- So many bytes fit no slot. -/
  | recordTooLarge (size : Nat)
  /-- Another failure, described by a text. -/
  | other (text : String)
  deriving DecidableEq, Repr

/-- The kinds that callers tell apart. -/
inductive FileErrorKind where
  | notFound
  | isADirectory
  | notADirectory
  | alreadyExists
  | directoryNotEmpty
  | resourceBusy
  | invalidFilename
  | invalidInput
  | invalidData
  | unexpectedEof
  | notConnected
  | other
  deriving DecidableEq, Repr

def Refusal.kind : Refusal → FileErrorKind
  | .notFound => .notFound
  | .isADirectory => .isADirectory
  | .notADirectory => .notADirectory
  | .alreadyExists => .alreadyExists
  | .directoryNotEmpty => .directoryNotEmpty
  | .busy => .resourceBusy
  | .invalidName => .invalidFilename
  | .invalidInput => .invalidInput
  | .shortRead => .unexpectedEof
  | .deviceFailure => .other

def Refusal.message : Refusal → String
  | .notFound => "no such file or directory"
  | .isADirectory => "is a directory"
  | .notADirectory => "not a directory"
  | .alreadyExists => "file exists"
  | .directoryNotEmpty => "directory not empty"
  | .busy => "device or resource busy"
  | .invalidName => "file name too long"
  | .invalidInput => "invalid argument"
  | .shortRead => "failed to fill whole buffer"
  | .deviceFailure => "input/output failure"

/-- The text about so many bytes that fit no slot. -/
def recordTooLargeText (size : Nat) : String := s!"Record too large: {size} bytes"

namespace FileError

def kind : FileError → FileErrorKind
  | .refused r => r.kind
  | .closed _ => .notConnected
  | .pastEnd _ _ _ => .unexpectedEof
  | .tooLong => .invalidData
  | .recordTooLarge _ => .invalidInput
  | .other _ => .other

/-- The text of an error that does not come from the file system. -/
def ownText? : FileError → Option String
  | .refused _ => none
  | .closed path => some s!"{path.text} is closed"
  | .pastEnd slot path length =>
    some s!"record at {slot.offset} ({slot.length} bytes) past end of {path.text} ({length} bytes)"
  | .tooLong => some "file too large"
  | .recordTooLarge size => some (recordTooLargeText size)
  | .other text => some text

def message (e : FileError) : String :=
  match e with
  | .refused r => r.message
  | _ => e.ownText?.getD ""

end FileError

/-! ### Regions -/

def Json.Fault.message : Json.Fault → String
  | .unfinished => "the text ends too early"
  | .malformed => "the text is not well formed"
  | .mismatched => "the text has another shape"

/-- Why an operation on a region fails. -/
inductive Error where
  /-- A file cannot be opened, read, written, renamed or removed. -/
  | file (error : FileError)
  /-- A record or a snapshot cannot be read. -/
  | codec (fault : Json.Fault)
  /-- A record can be read but disagrees with the index. -/
  | corrupted (key : String) (reason : String)
  /-- The record of an element fits no slot. -/
  | recordTooLarge (size : Nat)
  /-- The region has been disposed of. -/
  | notAlive (region : String)
  /-- Nothing is stored under the key. -/
  | notFound (key : String)
  /-- A request cannot be served as it is. -/
  | invalidRequest (reason : String)
  /-- The settings are unusable. -/
  | invalidConfig (reason : String)
  deriving DecidableEq, Repr

namespace Error

def message : Error → String
  | .file e => s!"I/O error: {e.message}"
  | .codec f => s!"Serialization error: {f.message}"
  | .corrupted key reason => s!"Corrupted record for key {key}: {reason}"
  | .recordTooLarge size => recordTooLargeText size
  | .notAlive region => s!"Disk cache not alive: {region}"
  | .notFound key => s!"Key not found: {key}"
  | .invalidRequest reason => s!"Invalid request: {reason}"
  | .invalidConfig reason => s!"Invalid configuration: {reason}"

end Error

end DiskTier
