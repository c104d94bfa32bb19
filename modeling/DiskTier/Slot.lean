import DiskTier.Bytes

/-!
# Slots

A slot is a range of the data file: where a record starts and how many bytes it has. A slot belongs
either to a key or to the free list, never to both.
-/

namespace DiskTier

/-- A range of bytes of the data file. -/
structure Slot where
  /-- The first byte. -/
  offset : UInt64
  length : UInt32
  deriving DecidableEq, Repr

namespace Slot

/-- The greatest length of a slot. -/
def maxLength : Nat := 0xFFFFFFFF

/-- The greatest number that an offset can hold. -/
def maxOffset : Nat := 0xFFFFFFFFFFFFFFFF

/-- The number of bytes of `data` as the length of a slot, if a slot can be as long. -/
def lengthOf? (data : Bytes) : Option UInt32 :=
  if data.length ≤ maxLength then some (UInt32.ofNat data.length) else none

theorem lengthOf?_of_le {data : Bytes} (h : data.length ≤ maxLength) :
    ∃ length, lengthOf? data = some length := ⟨_, if_pos h⟩

theorem lengthOf?_eq_some_iff {data : Bytes} {length : UInt32} :
    lengthOf? data = some length ↔ length.toNat = data.length := by
  unfold lengthOf?
  constructor
  · intro h
    split at h
    · next hle =>
      cases h
      exact UInt32.toNat_ofNat_of_lt' (Nat.lt_succ_of_le hle)
    · cases h
  · intro h
    have hle : data.length ≤ maxLength := h ▸ Nat.le_of_lt_succ length.toNat_lt
    rw [if_pos hle, ← h, UInt32.ofNat_toNat]

/-- The slot of `data` at `offset`, if a slot can be as long. -/
def forRecord? (offset : UInt64) (data : Bytes) : Option Slot :=
  (lengthOf? data).map fun length => { offset, length }

/-- The position of the first byte. -/
def start (s : Slot) : Nat := s.offset.toNat

/-- The position behind the last byte. -/
def stop (s : Slot) : Nat := s.offset.toNat + s.length.toNat

/-- The position behind the last byte, if an offset can hold it. -/
def end? (s : Slot) : Option Nat := if s.stop ≤ maxOffset then some s.stop else none

/-- Whether the slot lies within the first `length` bytes. -/
def isWithin (s : Slot) (length : Nat) : Bool :=
  match s.end? with
  | some e => e ≤ length
  | none => false

theorem isWithin_iff {s : Slot} {length : Nat} :
    s.isWithin length ↔ s.stop ≤ maxOffset ∧ s.stop ≤ length := by
  unfold isWithin end?
  by_cases h : s.stop ≤ maxOffset <;> simp [h]

end Slot

end DiskTier
