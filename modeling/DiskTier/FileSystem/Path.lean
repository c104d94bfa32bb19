import DiskTier.Text.Utf8

/-!
# Paths

A path is kept as the text that was given, which messages show. `Path.steps` is the walk that it
describes: `.` stays, `..` goes up, and every other name goes down. `Path.above` lists the paths
that end before each of its names, which is where whatever lies at the path has to be made.
-/

namespace DiskTier

/-- Where a file or directory lies. -/
structure Path where
  text : String
  deriving DecidableEq, Repr

namespace Path

def separator : Char := '/'

/-- The greatest number of bytes of a name. -/
def maxNameLength : Nat := 255

/-- The greatest number of bytes of a path. -/
def maxLength : Nat := 4095

/-- The path of `name` below `p`. A name that starts with the separator stands for itself. -/
def join (p : Path) (name : String) : Path :=
  if name.toList.head? = some separator then ⟨name⟩
  else if p.text.isEmpty || p.text.toList.getLast? = some separator then ⟨p.text ++ name⟩
  else ⟨p.text ++ separator.toString ++ name⟩

/-- The parts of a text between separators. -/
def split : List Char → List (List Char)
  | [] => [[]]
  | c :: cs =>
    if c = separator then [] :: split cs
    else match split cs with
      | [] => [[c]]
      | part :: parts => (c :: part) :: parts

/-- A step of a walk through directories. -/
inductive Step where
  | stay
  | up
  /-- Goes to what has this name in the directory. -/
  | down (name : String)
  deriving DecidableEq, Repr

/-- The step that a part of a path between separators stands for. -/
def Step.ofPart (part : List Char) : Step :=
  if part = ['.'] then .stay
  else if part = ['.', '.'] then .up
  else .down (String.ofList part)

/-- The walk that a path describes. Separators that follow each other count as one. -/
def steps (p : Path) : List Step :=
  ((split p.text.toList).filter (· ≠ [])).map Step.ofPart

/-- Whether a part of a path leads nowhere. -/
def isIdle (part : List Char) : Bool := part = [] || part = ['.']

/-- The paths that end before the names of a path, whose parts are given from the last on. -/
def pathsAbove : List (List Char) → List Path
  | [] => []
  | part :: parts =>
    let rest := parts.dropWhile isIdle
    if isIdle part || rest.isEmpty then pathsAbove parts
    else ⟨String.ofList ([separator].intercalate rest.reverse)⟩ :: pathsAbove parts

/-- The paths of the directories in which a path lies, the nearest first. -/
def above (p : Path) : List Path := pathsAbove (split p.text.toList).reverse

/-- Whether the path ends in a separator, and so can only be a directory. -/
def isDirectoryForm (p : Path) : Bool := p.text.toList.getLast? = some separator

/-- Whether no file system can hold the path, because a NUL stands in it. -/
def hasNul (p : Path) : Bool := p.text.toList.contains '\x00'

/-- Whether the path is longer than a file system takes. -/
def isTooLong (p : Path) : Bool := maxLength < Utf8.size p.text

end Path

end DiskTier
