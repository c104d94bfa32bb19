import DiskTier.Element.Codec

/-!
# Requests to store

The body of a request to store a text under a name, or under an attribute of a group.
-/

namespace DiskTier.Http

open Json

/-- A request to store. -/
structure SetRequest where
  /-- The plain name, or the name of the attribute. -/
  key : String
  value : String
  group : Option String
  maxLife : Option UInt64
  deriving DecidableEq, Repr

namespace SetRequest

/-- The members that have come. -/
structure Parts where
  key : Option String := none
  value : Option String := none
  group : Option (Option String) := none
  maxLife : Option (Option UInt64) := none

def reader : Reader SetRequest :=
  .record [
    .required "key" (·.key) (fun v p => { p with key := some v }) .text,
    .required "value" (·.value) (fun v p => { p with value := some v }) .text,
    .defaulted "group" (·.group) (fun v p => { p with group := some v }) .text,
    .defaulted "max_life" (·.maxLife) (fun v p => { p with maxLife := some v }) .word64]
    ({} : Parts)
    fun p => do
      pure { key := ← p.key, value := ← p.value, group := ← p.group, maxLife := ← p.maxLife }

/-! ### Validity -/

/-- The greatest number of bytes of a name. -/
def maxNameLength : Nat := 256

/-- What makes a request unacceptable. -/
inductive Problem where
  | emptyKey
  | longKey
  | emptyGroup
  | longGroup
  deriving DecidableEq, Repr

def Problem.message : Problem → String
  | .emptyKey => "Key cannot be empty"
  | .longKey => s!"Key exceeds maximum length of {maxNameLength} characters"
  | .emptyGroup => "Group cannot be empty"
  | .longGroup => s!"Group exceeds maximum length of {maxNameLength} characters"

def problem? (r : SetRequest) : Option Problem :=
  if r.key.isEmpty then some .emptyKey
  else if maxNameLength < Utf8.size r.key then some .longKey
  else match r.group with
    | none => none
    | some g =>
      if g.isEmpty then some .emptyGroup
      else if maxNameLength < Utf8.size g then some .longGroup
      else none

/-! ### What is stored -/

/-- The key under which the request stores in the region `cacheName`. -/
def target (r : SetRequest) (cacheName : String) : Key :=
  match r.group with
  | some groupName => .attribute { cacheName, groupName } r.key
  | none => .name r.key

/-- The element that the request stores in the region `cacheName` at the time `now`. -/
def toElement (r : SetRequest) (cacheName : String) (now : Int64) : Element :=
  { cacheName, key := r.target cacheName, value := Utf8.encode r.value,
    attributes := { createdAt := now, maxLife := r.maxLife } }

end SetRequest

end DiskTier.Http
