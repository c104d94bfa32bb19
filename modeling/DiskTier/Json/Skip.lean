import DiskTier.Json.Number
import DiskTier.Json.Quoted

/-!
# Values that are not kept

`skipValue` passes over any value, to any depth, with the open brackets on a stack. `mismatch`
stands where a value of one shape is wanted and another comes: it reads on just far enough to know
that a value does come.
-/

namespace DiskTier.Json.Reader

/-- The word that a letter starts, behind the letter. -/
def wordAfter? (b : UInt8) : Option Bytes :=
  if b = 0x6E then some [0x75, 0x6C, 0x6C]
  else if b = 0x74 then some [0x72, 0x75, 0x65]
  else if b = 0x66 then some [0x61, 0x6C, 0x73, 0x65]
  else none

/-- Whether a number can start with `b`. -/
def startsNumber (b : UInt8) : Bool := b == Ascii.minus || Ascii.isDigit b

/-- Fails because the value that comes is not of the wanted shape, or is no value. -/
def mismatch {α : Type} : Reader α := do
  let b ← token
  match wordAfter? b with
  | some w => do skip; exactly w; fail .mismatched
  | none =>
    if startsNumber b then do discard number; fail .mismatched
    else if b = Ascii.quote then do skip; discard textBody; fail .mismatched
    else if b = Ascii.openList || b = Ascii.openRecord then fail .mismatched
    else fail .malformed

/-- The two kinds of bracket. -/
inductive Bracket where
  | list
  | record
  deriving DecidableEq, Repr

/-- The byte that closes a bracket. -/
def Bracket.closing : Bracket → UInt8
  | .list => Ascii.closeList
  | .record => Ascii.closeRecord

/-- Passes over the name of a member and its colon. -/
def skipName : Reader Unit := do
  if (← token) = Ascii.quote then do
    skip
    skipText
    punctuation Ascii.colon
  else fail .malformed

/-- Where a skipping reader stands: the open brackets, innermost first, and whether a value has
just ended. -/
structure Skipping where
  stack : List Bracket
  valueEnded : Bool

namespace Skipping

/-- A value ends; the whole ends with it if no bracket is open. -/
def ended (stack : List Bracket) : Skipping ⊕ Unit :=
  if stack.isEmpty then .inr () else .inl { stack, valueEnded := true }

/-- An item of the innermost bracket follows. A number is passed over at once; of another value
the first byte comes next. -/
def item (stack : List Bracket) : Reader (Skipping ⊕ Unit) := do
  match stack with
  | .record :: _ => skipName
  | _ => pure ()
  if startsNumber (← token) then do skipNumber; pure (ended stack)
  else pure (.inl { stack, valueEnded := false })

/-- The first byte `b` of a value that is no number. -/
def value (b : UInt8) (stack : List Bracket) : Reader (Skipping ⊕ Unit) := do
  match wordAfter? b with
  | some w => do exactly w; pure (ended stack)
  | none =>
    if b = Ascii.quote then do skipText; pure (ended stack)
    else if b = Ascii.openList then opened .list
    else if b = Ascii.openRecord then opened .record
    else fail .malformed
where
  /-- Behind an opening bracket. -/
  opened (bracket : Bracket) : Reader (Skipping ⊕ Unit) := do
    if (← token) = bracket.closing then do skip; pure (ended stack)
    else item (bracket :: stack)

/-- The byte `b` behind a value. -/
def between (b : UInt8) : List Bracket → Reader (Skipping ⊕ Unit)
  | [] => fail .malformed
  | bracket :: rest =>
    if b = Ascii.comma then item (bracket :: rest)
    else if b = bracket.closing then pure (ended rest)
    else fail .malformed

/-- Passes over the byte `b` and what belongs to it. -/
def step (b : UInt8) (k : Skipping) : Reader (Skipping ⊕ Unit) :=
  if isBlank b then pure (.inl k)
  else if k.valueEnded then between b k.stack
  else value b k.stack

end Skipping

/-- Passes over a value. -/
def skipValue : Reader Unit := do
  match ← Skipping.item [] with
  | .inr () => pure ()
  | .inl k => loop Skipping.step k

end DiskTier.Json.Reader
