import DiskTier.Bytes

/-!
# Readers

A `Reader` takes a value off the front of its input. It reads strictly from left to right and stops
at the first fault, so of two faults in one text the earlier one is reported. Its law says that
what it leaves is an end of its input; loops over readers end by it.

There are three faults: the input ends too early, it is no JSON at the place where the reader
stands, or it is JSON of another shape than the one wanted.
-/

namespace DiskTier.Json

/-- Why a text cannot be read. -/
inductive Fault where
  /-- The input ends inside the value. -/
  | unfinished
  /-- No JSON text continues like this. -/
  | malformed
  /-- The value is not of the wanted shape, or lies outside the wanted range. -/
  | mismatched
  deriving DecidableEq, Repr

/-- A way to take an `α` off the front of the input. -/
structure Reader (α : Type) where
  /-- The value and what follows it, or the first fault. -/
  run : Bytes → Except Fault (α × Bytes)
  /-- What is left is an end of the input. -/
  suffix : ∀ {s : Bytes} {a : α} {r : Bytes}, run s = .ok (a, r) → r <:+ s

namespace Reader

variable {α β : Type}

/-- Takes nothing. -/
protected def pure (a : α) : Reader α where
  run s := .ok (a, s)
  suffix h := by cases h; exact List.suffix_refl _

/-- Reads on behind `x`. -/
protected def bind (x : Reader α) (f : α → Reader β) : Reader β where
  run s := match x.run s with
    | .ok (a, r) => (f a).run r
    | .error e => .error e
  suffix {s b r} h := by
    split at h
    · next a t hx => exact ((f a).suffix h).trans (x.suffix hx)
    · cases h

instance : Monad Reader where
  pure := Reader.pure
  bind := Reader.bind

/-- Stops with a fault. -/
def fail (e : Fault) : Reader α where
  run _ := .error e
  suffix h := by cases h

@[simp] theorem run_pure (a : α) (s : Bytes) : (pure a : Reader α).run s = .ok (a, s) := rfl

@[simp] theorem run_bind (x : Reader α) (f : α → Reader β) (s : Bytes) :
    (x >>= f).run s = match x.run s with
      | .ok (a, r) => (f a).run r
      | .error e => .error e := rfl

@[simp] theorem run_map (f : α → β) (x : Reader α) (s : Bytes) :
    (f <$> x).run s = match x.run s with
      | .ok (a, r) => .ok (f a, r)
      | .error e => .error e := rfl

@[simp] theorem run_fail (e : Fault) (s : Bytes) : (fail e : Reader α).run s = .error e := rfl

theorem length_le (x : Reader α) {s r : Bytes} {a : α} (h : x.run s = .ok (a, r)) :
    r.length ≤ s.length := (x.suffix h).length_le

/-- The value that `x` makes of `a`, or the fault it stands for. -/
def ofExcept : Except Fault α → Reader α
  | .ok a => pure a
  | .error e => fail e

/-- The value, if there is one; a mismatch if there is none. -/
def ofOption : Option α → Reader α
  | some a => pure a
  | none => fail .mismatched

/-! ### Bytes and blanks -/

/-- A byte that may stand between tokens. -/
def isBlank (b : UInt8) : Bool :=
  b == Ascii.space || b == Ascii.lineFeed || b == Ascii.carriageReturn || b == Ascii.tab

/-- The input from its first byte that is no blank. -/
def dropBlank (s : Bytes) : Bytes := s.dropWhile isBlank

theorem dropBlank_suffix (s : Bytes) : dropBlank s <:+ s := List.dropWhile_suffix _

/-- The next byte, which is not taken; `none` at the end of the input. -/
def peek : Reader (Option UInt8) where
  run s := .ok (s.head?, s)
  suffix h := by cases h; exact List.suffix_refl _

/-- Takes one byte, if there is one. -/
def skip : Reader Unit where
  run s := .ok ((), s.tail)
  suffix h := by cases h; exact List.tail_suffix _

/-- Takes the blanks that come first. -/
def blanks : Reader Unit where
  run s := .ok ((), dropBlank s)
  suffix h := by cases h; exact dropBlank_suffix _

def token : Reader UInt8 := do
  blanks
  match ← peek with
  | some b => pure b
  | none => fail .unfinished

/-- Takes `b`, perhaps after blanks. -/
def punctuation (b : UInt8) : Reader Unit := do
  if (← token) = b then skip else fail .malformed

/-- Takes exactly these bytes. -/
def exactly : Bytes → Reader Unit
  | [] => pure ()
  | b :: bs => do
    match ← peek with
    | none => fail .unfinished
    | some c => if c = b then do skip; exactly bs else fail .malformed

/-- The digits that come first. -/
def digits : Reader Bytes where
  run s := .ok (s.takeWhile Ascii.isDigit, s.dropWhile Ascii.isDigit)
  suffix h := by cases h; exact List.dropWhile_suffix _

/-! ### Loops -/

/-- Takes one byte after the other, each with what `step` takes behind it, until `step` gives a
value; the input must not end before. -/
def loopRun (step : UInt8 → α → Reader (α ⊕ β)) (a : α) : Bytes → Except Fault (β × Bytes)
  | [] => .error .unfinished
  | b :: s =>
    match h : (step b a).run s with
    | .ok (.inl a', r) =>
      have := (step b a).length_le h
      loopRun step a' r
    | .ok (.inr v, r) => .ok (v, r)
    | .error e => .error e
termination_by s => s.length

theorem loopRun_suffix (step : UInt8 → α → Reader (α ⊕ β)) (a : α) {s r : Bytes} {v : β}
    (h : loopRun step a s = .ok (v, r)) : r <:+ s := by
  fun_induction loopRun step a s with
  | case1 => cases h
  | case2 a b s a' t hs _ ih =>
    exact ((ih h).trans ((step b a).suffix hs)).trans (List.suffix_cons b s)
  | case3 a b s w t hs =>
    cases h
    exact ((step b a).suffix hs).trans (List.suffix_cons b s)
  | case4 => cases h

@[inherit_doc loopRun]
def loop (step : UInt8 → α → Reader (α ⊕ β)) (a : α) : Reader β where
  run := loopRun step a
  suffix := loopRun_suffix step a

/-! ### Whole inputs -/

/-- The value of a whole text: nothing but blanks may follow what `x` reads. -/
def whole (x : Reader α) (s : Bytes) : Except Fault α :=
  match x.run s with
  | .ok (a, r) => if (dropBlank r).isEmpty then .ok a else .error .malformed
  | .error e => .error e

/-- The value at the front of a text, whatever follows it. -/
def front (x : Reader α) (s : Bytes) : Except Fault α := (·.1) <$> x.run s

end Reader

end DiskTier.Json
