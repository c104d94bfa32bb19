import DiskTier.Assoc
import DiskTier.Key
import DiskTier.Slot

/-!
# The key index

A bounded map from keys to slots that remembers the order of insertion. Every insert gives its key
the next stamp and so makes it the newest; look-ups change nothing. When the index holds more keys
than its capacity, the oldest go, and the caller is told which.

Two maps are kept: from a key to its slot and stamp, and from a stamp to its key, in ascending
order. `toList` is the index as a list of entries, oldest first.
-/

namespace DiskTier

/-- What the index knows of a key. -/
structure Stamped where
  slot : Slot
  /-- When the key was inserted last. -/
  stamp : Nat
  deriving DecidableEq, Repr

/-- A bounded map from keys to slots, in order of insertion. -/
structure Index where
  /-- Key to slot and stamp. -/
  entries : List (Key × Stamped)
  /-- Stamp to key, by ascending stamp. -/
  order : List (Nat × Key)
  nextStamp : Nat
  capacity : Nat
  deriving DecidableEq, Repr

namespace Index

/-- The capacity of an index that is to keep every key. -/
def unbounded : Nat := 0xFFFFFFFFFFFFFFFF

def empty (capacity : Nat) : Index :=
  { entries := [], order := [], nextStamp := 0, capacity }

/-! ### Looking -/

def get? (i : Index) (k : Key) : Option Slot := (Assoc.find? i.entries k).map (·.slot)

def contains (i : Index) (k : Key) : Bool := (Assoc.find? i.entries k).isSome

def size (i : Index) : Nat := i.entries.length

def isEmpty (i : Index) : Bool := i.entries.isEmpty

/-- The keys, oldest first. -/
def keys (i : Index) : List Key := i.order.map (·.2)

/-- The entries, oldest first. -/
def toList (i : Index) : List (Key × Slot) :=
  i.order.filterMap fun p => (i.get? p.2).map (p.2, ·)

def oldest? (i : Index) : Option Key := i.keys.head?

/-! ### Removing -/

/-- Forgets a key; its slot is the caller's. -/
def remove (i : Index) (k : Key) : Option Slot × Index :=
  match Assoc.find? i.entries k with
  | none => (none, i)
  | some e =>
    (some e.slot,
      { i with entries := Assoc.erase i.entries k, order := Assoc.erase i.order e.stamp })

/-- Forgets each of `ks`; the slots of those that were held are the caller's. -/
def removeEach (i : Index) : List Key → List (Key × Slot) × Index
  | [] => ([], i)
  | k :: ks =>
    match i.remove k with
    | (none, i') => i'.removeEach ks
    | (some s, i') =>
      let (rest, last) := i'.removeEach ks
      ((k, s) :: rest, last)

/-- Forgets the keys of which `p` holds, oldest first. -/
def removeWhere (i : Index) (p : Key → Bool) : List (Key × Slot) × Index :=
  i.removeEach (i.keys.filter p)

def popOldest (i : Index) : Option ((Key × Slot) × Index) :=
  match i.order with
  | [] => none
  | (_, k) :: rest =>
    (Assoc.find? i.entries k).map fun e =>
      ((k, e.slot), { i with entries := Assoc.erase i.entries k, order := rest })

/-- Forgets up to `n` keys, oldest first. -/
def popMany : (n : Nat) → Index → List (Key × Slot) × Index
  | 0, i => ([], i)
  | n + 1, i =>
    match i.popOldest with
    | none => ([], i)
    | some (e, i') =>
      let (rest, last) := popMany n i'
      (e :: rest, last)

/-- Forgets the oldest keys until the capacity is kept. -/
def trim (i : Index) : List (Key × Slot) × Index := popMany (i.size - i.capacity) i

/-- Changes the capacity; the keys that no longer fit go. -/
def setCapacity (i : Index) (capacity : Nat) : List (Key × Slot) × Index :=
  { i with capacity }.trim

/-! ### Inserting -/

/-- What an insert leads to. -/
structure Insertion where
  /-- The slot that the key had before. -/
  previous : Option Slot
  /-- The keys that had to go, oldest first. -/
  evicted : List (Key × Slot)
  index : Index

/-- Gives a key a slot and makes it the newest. -/
def insert (i : Index) (k : Key) (s : Slot) : Insertion :=
  let old := Assoc.find? i.entries k
  let order := match old with
    | some e => Assoc.erase i.order e.stamp
    | none => i.order
  let (evicted, index) :=
    { i with
      entries := Assoc.put i.entries k { slot := s, stamp := i.nextStamp }
      order := order ++ [(i.nextStamp, k)]
      nextStamp := i.nextStamp + 1 }.trim
  { previous := old.map (·.slot), evicted, index }

/-- Inserts entries one after the other. A slot that is dropped is given to the caller with its
key: those of evicted keys, and after them the one that a repeated key had before. -/
def insertAll (i : Index) : List (Key × Slot) → List (Key × Slot) × Index
  | [] => ([], i)
  | (k, s) :: es =>
    let step := i.insert k s
    let (rest, last) := step.index.insertAll es
    (step.evicted ++ (step.previous.map (k, ·)).toList ++ rest, last)

end Index

end DiskTier
