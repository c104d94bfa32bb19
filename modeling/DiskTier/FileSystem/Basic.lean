import DiskTier.Action
import DiskTier.Assoc
import DiskTier.FileSystem.Content
import DiskTier.FileSystem.Path

/-!
# The file system

Numbered directories and files. A name in a directory leads to a directory or a file by its number,
and an open file is its number, so a file that loses its name or is replaced under it stays as it is
for those who have it open.

A path is walked step by step from the root. Every step but the last must lead to a directory; what
the last one may lead to is for each operation to say. A path that ends in a separator wants a
directory, also where its last name leads nowhere yet.

Every operation asks first whether a fault is planned for it. A faulty operation fails and changes
nothing, but a write may leave its first bytes on disk. Operations are numbered in the order in
which they are tried; a plan that faults every operation from some number on leaves the disk as it
is when the process stops there.
-/

namespace DiskTier

/-- Why the file system refuses an operation. -/
inductive Refusal where
  | notFound
  /-- A directory stands where a file is wanted. -/
  | isADirectory
  /-- A file stands where a directory is wanted. -/
  | notADirectory
  | alreadyExists
  /-- A directory that is to be replaced is not empty. -/
  | directoryNotEmpty
  /-- A directory is to be moved under a path that only walks to it. -/
  | busy
  /-- A name is too long. -/
  | invalidName
  | invalidInput
  /-- The input ends before the bytes that are wanted. -/
  | shortRead
  | deviceFailure
  deriving DecidableEq, Repr

/-- A failure that is planned for an operation. -/
structure PlannedFault where
  refusal : Refusal
  /-- How many bytes a write leaves on disk all the same. -/
  written : Nat
  deriving DecidableEq, Repr

/-- What a name leads to. -/
inductive Node where
  | directory (number : Nat)
  | file (number : Nat)
  deriving DecidableEq, Repr

/-- All files, and the failures to come. -/
structure FileSystem where
  /-- The names in each directory and what they lead to. An empty directory may be left out. -/
  directories : List (Nat × List (String × Node))
  contents : List (Nat × Content)
  /-- The number of the next new file or directory. -/
  nextNumber : Nat
  /-- How many operations were tried. -/
  attempts : Nat
  /-- The failure planned for the operation of a number. -/
  faults : Nat → Option PlannedFault

namespace FileSystem

/-- The directory in which every walk begins. -/
def root : Nat := 0

/-- A file system without files in which nothing fails. -/
def empty : FileSystem :=
  { directories := [], contents := [], nextNumber := root + 1, attempts := 0,
    faults := fun _ => none }

/-- The greatest position that a file can have, and so its greatest size. -/
def maxPosition : Nat := 0x7FFFFFFFFFFFFFFF

/-! ### Names -/

def entries (fs : FileSystem) (directory : Nat) : List (String × Node) :=
  (Assoc.find? fs.directories directory).getD []

def node? (fs : FileSystem) (directory : Nat) (name : String) : Option Node :=
  Assoc.find? (fs.entries directory) name

/-- Looks for a name in a directory. -/
def find (fs : FileSystem) (directory : Nat) (name : String) : Except Refusal (Option Node) :=
  if Path.maxNameLength < Utf8.size name then .error .invalidName
  else .ok (fs.node? directory name)

/-- A place in a walk: the directories on the way from the root to it, the innermost first. The
root, above which there is nothing, is left out. -/
abbrev Trail : Type := List Nat

def Trail.directory (t : Trail) : Nat := t.headD root

/-- Walks on from `here` to a directory. -/
def walk (fs : FileSystem) (here : Trail) : List Path.Step → Except Refusal Trail
  | [] => .ok here
  | .stay :: steps => walk fs here steps
  | .up :: steps => walk fs here.tail steps
  | .down name :: steps =>
    match fs.find here.directory name with
    | .error e => .error e
    | .ok none => .error .notFound
    | .ok (some (.file _)) => .error .notADirectory
    | .ok (some (.directory n)) => walk fs (n :: here) steps

/-- Where a path ends. -/
inductive Place where
  /-- In a directory that it walks to without giving its name there. -/
  | within (here : Trail)
  | entry (here : Trail) (name : String)
  deriving DecidableEq, Repr

/-- The place at which a path ends; all directories on the way to it exist. -/
def resolve (fs : FileSystem) (p : Path) : Except Refusal Place :=
  if p.hasNul then .error .invalidInput
  else if p.isTooLong then .error .invalidName
  else do
    let here ← fs.walk [] p.steps.dropLast
    match p.steps.getLast? with
    | some (.down name) => .ok (.entry here name)
    | some .up => .ok (.within here.tail)
    | _ => .ok (.within here)

def look (fs : FileSystem) (p : Path) : Except Refusal (Option Node) := do
  match ← fs.resolve p with
  | .within here => .ok (some (.directory here.directory))
  | .entry here name =>
    match ← fs.find here.directory name with
    | some (.file n) => if p.isDirectoryForm then .error .notADirectory else .ok (some (.file n))
    | found => .ok found

def isDirectory (fs : FileSystem) (p : Path) : Bool :=
  match fs.look p with
  | .ok (some (.directory _)) => true
  | _ => false

def content (fs : FileSystem) (number : Nat) : Content :=
  (Assoc.find? fs.contents number).getD []

/-- The content of the file at a path, if there is a file. -/
def contentAt? (fs : FileSystem) (p : Path) : Option Content :=
  match fs.look p with
  | .ok (some (.file n)) => some (fs.content n)
  | _ => none

def holds (fs : FileSystem) (p : Path) : Bool :=
  match fs.look p with
  | .ok (some _) => true
  | _ => false

/-! ### Changes -/

def setEntries (fs : FileSystem) (directory : Nat) (entries : List (String × Node)) : FileSystem :=
  { fs with directories := Assoc.put fs.directories directory entries }

/-- Makes a name in a directory lead to `node`. -/
def setEntry (fs : FileSystem) (directory : Nat) (name : String) (node : Node) : FileSystem :=
  fs.setEntries directory (Assoc.put (fs.entries directory) name node)

/-- Makes a name in a directory lead nowhere. -/
def removeEntry (fs : FileSystem) (directory : Nat) (name : String) : FileSystem :=
  fs.setEntries directory (Assoc.erase (fs.entries directory) name)

theorem entries_setEntries (fs : FileSystem) (d e : Nat) (entries : List (String × Node)) :
    (fs.setEntries d entries).entries e = if e = d then entries else fs.entries e := by
  by_cases h : e = d <;> simp [FileSystem.entries, setEntries, Assoc.find?_put, h]

theorem node?_setEntry (fs : FileSystem) (d e : Nat) (name other : String) (node : Node) :
    (fs.setEntry d name node).node? e other =
      if e = d ∧ other = name then some node else fs.node? e other := by
  by_cases h : e = d
  · subst h
    simp [node?, setEntry, entries_setEntries, Assoc.find?_put]
  · simp [node?, setEntry, entries_setEntries, h]

theorem node?_removeEntry (fs : FileSystem) (d e : Nat) (name other : String) :
    (fs.removeEntry d name).node? e other =
      if e = d ∧ other = name then none else fs.node? e other := by
  by_cases h : e = d
  · subst h
    simp [node?, removeEntry, entries_setEntries, Assoc.find?_erase]
  · simp [node?, removeEntry, entries_setEntries, h]

def setContent (fs : FileSystem) (number : Nat) (c : Content) : FileSystem :=
  { fs with contents := Assoc.put fs.contents number c }

/-- Makes an empty file of a name; also its number. -/
def create (fs : FileSystem) (directory : Nat) (name : String) : Nat × FileSystem :=
  (fs.nextNumber,
    { (fs.setEntry directory name (.file fs.nextNumber)).setContent fs.nextNumber [] with
      nextNumber := fs.nextNumber + 1 })

def createDirectory (fs : FileSystem) (directory : Nat) (name : String) : FileSystem :=
  { fs.setEntry directory name (.directory fs.nextNumber) with nextNumber := fs.nextNumber + 1 }

/-! ### Operations -/

/-- An operation on files. -/
abbrev Operation (α : Type) : Type := Action FileSystem Refusal α

/-- Counts an operation and gives the fault that is planned for it. -/
def nextFault : Operation (Option PlannedFault) :=
  Action.ofResult fun fs => (.ok (fs.faults fs.attempts), { fs with attempts := fs.attempts + 1 })

/-- An operation that changes nothing when it fails. -/
def operate (f : FileSystem → Except Refusal (α × FileSystem)) : Operation α := do
  match ← nextFault with
  | some fault => throw fault.refusal
  | none =>
    match f (← get) with
    | .error e => throw e
    | .ok (a, fs) => do set fs; pure a

/-- Opens the file at a path, which is made if there is none; its number. -/
def openFile (p : Path) : Operation Nat :=
  operate fun fs => do
    match ← fs.resolve p with
    | .within _ => .error .isADirectory
    | .entry here name =>
      if p.isDirectoryForm then .error .isADirectory
      else match ← fs.find here.directory name with
        | some (.directory _) => .error .isADirectory
        | some (.file n) => .ok (n, fs)
        | none => .ok (fs.create here.directory name)

def fileSize (number : Nat) : Operation Nat :=
  operate fun fs => .ok ((fs.content number).size, fs)

/-- The size of what lies at a path. A directory has none that matters. -/
def sizeAt (p : Path) : Operation Nat :=
  operate fun fs => do
    match ← fs.look p with
    | none => .error .notFound
    | some (.directory _) => .ok (0, fs)
    | some (.file n) => .ok ((fs.content n).size, fs)

def resize (number size : Nat) : Operation Unit :=
  operate fun fs =>
    if maxPosition < size then .error .invalidInput
    else .ok ((), fs.setContent number ((fs.content number).resize size))

/-- Reads `length` bytes of an open file. Of no bytes nothing is asked. -/
def readAt (number offset length : Nat) : Operation Bytes :=
  if length = 0 then pure []
  else operate fun fs =>
    if maxPosition < offset + length then .error .invalidInput
    else match (fs.content number).read? offset length with
      | some bytes => .ok (bytes, fs)
      | none => .error .shortRead

/-- Writes bytes into an open file. Of no bytes nothing is asked. -/
def writeAt (number offset : Nat) (bytes : Bytes) : Operation Unit :=
  if bytes.isEmpty then pure ()
  else do
    let fault ← nextFault
    let kept := match fault with
      | none => bytes
      | some f => bytes.take f.written
    if maxPosition < offset + bytes.length then throw .invalidInput
    if !kept.isEmpty then
      modify fun fs => fs.setContent number ((fs.content number).write offset kept)
    match fault with
    | none => pure ()
    | some f => throw f.refusal

def sync (_number : Nat) : Operation Unit := operate fun fs => .ok ((), fs)

/-- Takes the name of a file away. -/
def unlink (p : Path) : Operation Unit :=
  operate fun fs => do
    match ← fs.resolve p with
    | .within _ => .error .isADirectory
    | .entry here name =>
      match ← fs.find here.directory name with
      | none => .error .notFound
      | some (.directory _) => .error .isADirectory
      | some (.file _) =>
        if p.isDirectoryForm then .error .notADirectory
        else .ok ((), fs.removeEntry here.directory name)

/-- Takes the name of a file away, if there is one. -/
def unlinkIfPresent (p : Path) : Operation Unit := do
  match ← (unlink p).attempt with
  | .ok () => pure ()
  | .error .notFound => pure ()
  | .error e => throw e

/-- Gives what lies at `source` the name `target`, in place of what lies there. -/
def rename (source target : Path) : Operation Unit :=
  operate fun fs => do
    match ← fs.resolve source, ← fs.resolve target with
    | .entry before old, .entry behind new =>
      match ← fs.find before.directory old with
      | none => .error .notFound
      | some node =>
        let moved := (fs.removeEntry before.directory old).setEntry behind.directory new node
        match node, ← fs.find behind.directory new with
        | .file _, found =>
          if source.isDirectoryForm || target.isDirectoryForm then .error .notADirectory
          else match found with
            | some (.directory _) => .error .isADirectory
            | _ => .ok ((), moved)
        | .directory n, found =>
          if n ∈ behind then .error .invalidInput
          else match found with
            | none => .ok ((), moved)
            | some (.file _) => .error .notADirectory
            | some (.directory m) =>
              if m = n then .ok ((), fs)
              else if fs.entries m ≠ [] then .error .directoryNotEmpty
              else .ok ((), moved)
    | _, _ => .error .busy

/-! ### Directories -/

/-- Makes the directory at a path. -/
def makeDirectory (fs : FileSystem) (p : Path) : Except Refusal FileSystem := do
  match ← fs.resolve p with
  | .within _ => .error .alreadyExists
  | .entry here name =>
    match ← fs.find here.directory name with
    | some _ => .error .alreadyExists
    | none => .ok (fs.createDirectory here.directory name)

def ensureDirectory (p : Path) (fs : FileSystem) : Except Refusal Unit × FileSystem :=
  match fs.makeDirectory p with
  | .ok fs => (.ok (), fs)
  | .error e => (if fs.isDirectory p then .ok () else .error e, fs)

/-- Makes the directory at the first path unless there is one. If something on the way to it is
missing, the directory at the next path, in which it lies, is made in the same way before. -/
def makeDirectories : List Path → FileSystem → Except Refusal Unit × FileSystem
  | [], fs => (.ok (), fs)
  | p :: above, fs =>
    match ensureDirectory p fs with
    | (.error .notFound, fs) =>
      match makeDirectories above fs with
      | (.ok (), fs) => ensureDirectory p fs
      | failed => failed
    | done => done

/-- Makes the directory at a path with all that lead to it. What was made stays if that fails. -/
def createDirectories (p : Path) : Operation Unit := do
  match ← nextFault with
  | some fault => throw fault.refusal
  | none => Action.ofResult (makeDirectories (p :: p.above))

end FileSystem

end DiskTier
