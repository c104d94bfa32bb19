import DiskTier.Bytes

/-!
# File contents

A file is a sequence of bytes that may be far longer than what was ever written to it, so its
content is kept in runs: bytes that were written, and holes that read as zeros. `Content.toList` is
the plain sequence of bytes; each operation is described by what it does to that.
-/

namespace DiskTier

/-- A part of a file. -/
inductive Run where
  /-- Bytes that were written, with their number. -/
  | data (bytes : Bytes) (count : Nat) (count_eq : bytes.length = count)
  /-- So many bytes that were never written. -/
  | hole (count : Nat)

namespace Run

def ofBytes (bytes : Bytes) : Run := .data bytes bytes.length rfl

def toList : Run → Bytes
  | .data bytes _ _ => bytes
  | .hole n => List.replicate n 0

def size : Run → Nat
  | .data _ n _ => n
  | .hole n => n

def take (n : Nat) : Run → Run
  | .data bytes _ _ => .ofBytes (bytes.take n)
  | .hole k => .hole (min n k)

def drop (n : Nat) : Run → Run
  | .data bytes _ _ => .ofBytes (bytes.drop n)
  | .hole k => .hole (k - n)

@[simp] theorem toList_ofBytes (bytes : Bytes) : (ofBytes bytes).toList = bytes := rfl

@[simp] theorem length_toList (r : Run) : r.toList.length = r.size := by
  cases r with
  | data bytes n h => exact h
  | hole n => simp [toList, size]

@[simp] theorem toList_take (n : Nat) (r : Run) : (r.take n).toList = r.toList.take n := by
  cases r <;> simp [toList, take, ofBytes]

@[simp] theorem toList_drop (n : Nat) (r : Run) : (r.drop n).toList = r.toList.drop n := by
  cases r <;> simp [toList, drop, ofBytes]

end Run

/-- What a file holds. -/
abbrev Content := List Run

namespace Content

def toList (c : Content) : Bytes := c.flatMap Run.toList

def size (c : Content) : Nat := c.foldr (fun r total => r.size + total) 0

def take : (n : Nat) → Content → Content
  | _, [] => []
  | n, r :: rs =>
    if n = 0 then []
    else
      let k := r.size
      if n < k then [r.take n] else r :: take (n - k) rs

def drop : (n : Nat) → Content → Content
  | _, [] => []
  | n, r :: rs =>
    if n = 0 then r :: rs
    else
      let k := r.size
      if n < k then r.drop n :: rs else drop (n - k) rs

/-- Cuts the file to `n` bytes, or fills it up with zeros. -/
def resize (n : Nat) (c : Content) : Content :=
  let k := c.size
  if n ≤ k then c.take n else c ++ [.hole (n - k)]

/-- Puts `bytes` at `offset`, behind a hole if the file ends before. -/
def write (offset : Nat) (bytes : Bytes) (c : Content) : Content :=
  c.resize offset ++ .ofBytes bytes :: c.drop (offset + bytes.length)

/-- The `length` bytes from `offset`; `none` if the file ends before them. -/
def read? (offset length : Nat) (c : Content) : Option Bytes :=
  let bytes := ((c.drop offset).take length).toList
  if bytes.length = length then some bytes else none

/-! ### What the operations do to the bytes -/

@[simp] theorem length_toList (c : Content) : c.toList.length = c.size := by
  induction c with
  | nil => rfl
  | cons r rs ih =>
    rw [toList, List.flatMap_cons, List.length_append, Run.length_toList]
    exact congrArg (r.size + ·) ih

@[simp] theorem toList_nil : toList [] = [] := rfl

theorem toList_cons (r : Run) (rs : Content) : toList (r :: rs) = r.toList ++ toList rs := rfl

@[simp] theorem toList_append (c d : Content) : toList (c ++ d) = toList c ++ toList d := by
  simp [toList]

theorem toList_take (n : Nat) (c : Content) : (c.take n).toList = c.toList.take n := by
  induction c generalizing n with
  | nil => simp [take]
  | cons r rs ih =>
    rw [take]
    by_cases hn : n = 0
    · simp [hn]
    · by_cases hk : n < r.size
      · have : n - r.size = 0 := by omega
        simp [hn, hk, toList_cons, List.take_append, this]
      · have : r.toList.length ≤ n := by simp; omega
        simp [hn, hk, toList_cons, List.take_append, ih, List.take_of_length_le this]

theorem toList_drop (n : Nat) (c : Content) : (c.drop n).toList = c.toList.drop n := by
  induction c generalizing n with
  | nil => simp [drop]
  | cons r rs ih =>
    rw [drop]
    by_cases hn : n = 0
    · simp [hn]
    · by_cases hk : n < r.size
      · have : n - r.size = 0 := by omega
        simp [hn, hk, toList_cons, List.drop_append, this]
      · have : r.toList.length ≤ n := by simp; omega
        simp [hn, hk, toList_cons, List.drop_append, ih, List.drop_of_length_le this]

theorem toList_resize (n : Nat) (c : Content) :
    (c.resize n).toList = c.toList.take n ++ List.replicate (n - c.size) 0 := by
  unfold resize
  by_cases h : n ≤ c.size
  · simp [h, toList_take, Nat.sub_eq_zero_of_le h]
  · have : c.toList.length ≤ n := by simp; omega
    simp [h, List.take_of_length_le this, toList_cons, Run.toList]

theorem toList_write (offset : Nat) (bytes : Bytes) (c : Content) :
    (c.write offset bytes).toList =
      c.toList.take offset ++ List.replicate (offset - c.size) 0 ++ bytes ++
        c.toList.drop (offset + bytes.length) := by
  simp [write, toList_resize, toList_cons, toList_drop]

theorem read?_eq (offset length : Nat) (c : Content) :
    c.read? offset length =
      if offset + length ≤ c.size ∨ length = 0 then
        some ((c.toList.drop offset).take length) else none := by
  unfold read?
  simp only [toList_take, toList_drop, List.length_take, List.length_drop, length_toList]
  by_cases h : offset + length ≤ c.size ∨ length = 0
  · have : min length (c.size - offset) = length := by omega
    simp [h, this]
  · have : min length (c.size - offset) ≠ length := by omega
    simp [h, this]

end Content

end DiskTier
