import DiskTier.FileSystem.Basic

/-!
# Changes made by others

Files may be changed by others while a region has them open: written anew, cut, overwritten in
place, removed, or replaced by directories. To be cut or overwritten a file must be there.
-/

namespace DiskTier.FileSystem

/-- Makes the directories that lead to a path. -/
def makeParents (p : Path) : Operation Unit := Action.ofResult (makeDirectories p.above)

/-- Opens the file at a path, which must be there; its number. -/
def openExisting (p : Path) : Operation Nat :=
  operate fun fs => do
    match ← fs.look p with
    | none => .error .notFound
    | some (.directory _) => .error .isADirectory
    | some (.file n) => .ok (n, fs)

/-- Makes a file hold exactly these bytes. -/
def writeWhole (p : Path) (bytes : Bytes) : Operation Unit := do
  let n ← openFile p
  resize n 0
  writeAt n 0 bytes

/-- Cuts or extends the file at a path. -/
def resizeAt (p : Path) (size : Nat) : Operation Unit := do
  resize (← openExisting p) size

/-- Overwrites bytes of the file at a path in place. -/
def overwriteAt (p : Path) (offset : Nat) (bytes : Bytes) : Operation Unit := do
  writeAt (← openExisting p) offset bytes

/-- Empties the directory at a path and takes its name away. A directory that the path walks to
without giving its name there is emptied but stays, unless the path leads nowhere after that. -/
def removeDirectory (p : Path) (directory : Nat) (fs : FileSystem) :
    Except Refusal Unit × FileSystem :=
  let emptied := fs.setEntries directory []
  match emptied.resolve p with
  | .ok (.entry here name) => (.ok (), emptied.removeEntry here.directory name)
  | .ok (.within _) => (.error .invalidInput, emptied)
  | .error .notFound => (.ok (), emptied)
  | .error e => (.error e, emptied)

/-- Removes a file, or a directory with all that lies below it. -/
def removeTree (p : Path) : Operation Unit := do
  match (← get).look p with
  | .ok (some (.directory n)) => Action.ofResult (removeDirectory p n)
  | _ => unlink p

/-- What is seen at a path from outside. -/
inductive Sight where
  | nothing
  | directory
  | file (bytes : Bytes)

/-- Looks at a path. -/
def see (fs : FileSystem) (p : Path) : Sight :=
  match fs.look p with
  | .ok (some (.file n)) => .file (fs.content n).toList
  | .ok (some (.directory _)) => .directory
  | _ => .nothing

end DiskTier.FileSystem
