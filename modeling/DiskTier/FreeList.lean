import DiskTier.Slot

/-!
# The free list

Slots that no key uses any more, in buckets by length. `reserve?` gives the shortest slot that is
long enough, and of equally long ones the one that came last. The list is bounded: once it is full,
a slot gets in only by displacing a shorter one, and the loser is lost until the data file is
compacted.
-/

namespace DiskTier

/-- A bounded store of free slots. -/
structure FreeList where
  /-- The slots of each length, by ascending length; in a bucket the latest comes first. -/
  buckets : List (UInt32 × List Slot)
  count : Nat
  capacity : Nat
  deriving DecidableEq, Repr

namespace FreeList

def empty (capacity : Nat) : FreeList := { buckets := [], count := 0, capacity }

def isEmpty (f : FreeList) : Bool := f.count = 0

/-- The slots, shortest first and of equal ones the latest first: the order in which they are
given away. -/
def toList (f : FreeList) : List Slot := f.buckets.flatMap (·.2)

def freeBytes (f : FreeList) : Nat :=
  f.buckets.foldr (fun b total => b.1.toNat * b.2.length + total) 0

/-- The shortest length that is held and at least `least`. -/
def bestLength? (f : FreeList) (least : UInt32) : Option UInt32 :=
  (f.buckets.find? fun b => least ≤ b.1).map (·.1)

/-! ### Buckets -/

/-- Takes the latest slot of the bucket of `length`; a bucket that becomes empty goes. -/
def takeFrom (length : UInt32) :
    List (UInt32 × List Slot) → Option (Slot × List (UInt32 × List Slot))
  | [] => none
  | (n, slots) :: rest =>
    if n = length then
      match slots with
      | [] => none
      | [s] => some (s, rest)
      | s :: t :: more => some (s, (n, t :: more) :: rest)
    else (takeFrom length rest).map fun (s, rest') => (s, (n, slots) :: rest')

/-- Puts a slot on the bucket of its length, which is made if there is none. -/
def putInto (s : Slot) : List (UInt32 × List Slot) → List (UInt32 × List Slot)
  | [] => [(s.length, [s])]
  | (n, slots) :: rest =>
    if s.length < n then (s.length, [s]) :: (n, slots) :: rest
    else if s.length = n then (n, s :: slots) :: rest
    else (n, slots) :: putInto s rest

/-- Takes a slot of exactly this length. -/
def takeOne (f : FreeList) (length : UInt32) : Option (Slot × FreeList) :=
  (takeFrom length f.buckets).map fun (s, buckets) =>
    (s, { f with buckets, count := f.count - 1 })

/-! ### Giving and taking -/

/-- Takes the best slot of at least this length. -/
def reserve? (f : FreeList) (least : UInt32) : Option (Slot × FreeList) :=
  f.bestLength? least >>= f.takeOne

/-- Adds a slot, whatever the capacity. -/
def add (f : FreeList) (s : Slot) : FreeList :=
  { f with buckets := putInto s f.buckets, count := f.count + 1 }

/-- Offers a slot; also whether it was taken. -/
def release (f : FreeList) (s : Slot) : Bool × FreeList :=
  if f.capacity = 0 then (false, f)
  else if f.count < f.capacity then (true, f.add s)
  else
    match f.bestLength? 0 with
    | none => (false, f)
    | some shortest =>
      if s.length ≤ shortest then (false, f)
      else
        match f.takeOne shortest with
        | some (_, f') => (true, f'.add s)
        | none => (true, f.add s)

def releaseAll (f : FreeList) (slots : List Slot) : FreeList :=
  slots.foldl (fun f s => (f.release s).2) f

end FreeList

end DiskTier
