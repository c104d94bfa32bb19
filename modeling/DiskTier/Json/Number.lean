import DiskTier.Json.Reader

/-!
# Numbers

A number is an optional minus sign, a whole part with no leading zero, an optional fraction and an
optional exponent. It counts as an integer if it is written without fraction and exponent, is not
`-0`, and fits 64 bits, signed or unsigned; any other number is a real. A real must not round to
infinity as a double, or it is no number at all.

The size of a real is found from its first digits, as many as fit 64 unsigned bits, times a power
of ten; both factors and the product are rounded to double precision.
-/

namespace DiskTier.Json

/-- A number as it is written. -/
structure NumberText where
  negative : Bool
  whole : Bytes
  fraction : Option Bytes
  /-- The sign of the exponent and its digits. -/
  exponent : Option (Bool × Bytes)

/-- A number as it is understood. -/
inductive Number where
  | integer (n : Int)
  | real
  deriving DecidableEq, Repr

/-! ### The size of a real -/

/-- `n` rounded to 53 significant bits, a half to the even neighbour. -/
def roundToDouble (n : Nat) : Nat :=
  if n < Nat.pow 2 53 then n
  else
    let k := n.log2 - 52
    let q := n / Nat.pow 2 k
    let r := n % Nat.pow 2 k
    let up := Nat.pow 2 (k - 1) < r || (r == Nat.pow 2 (k - 1) && q % 2 == 1)
    (if up then q + 1 else q) * Nat.pow 2 k

/-- Appends digits to `n` while the result fits 64 bits, and adds their number to `count`. -/
def appendDigits (n count : Nat) : Bytes → Nat × Nat
  | [] => (n, count)
  | d :: ds =>
    let m := n * 10 + Ascii.digitValue d
    if m < 0x10000000000000000 then appendDigits m (count + 1) ds else (n, count)

/-- Whether `n · 10 ^ e` rounds to infinity. -/
def roundsToInfinity (n : Nat) (e : Int) : Bool :=
  if n = 0 || e < 0 then false
  else if 308 < e then true
  else Nat.pow 2 1024 ≤ roundToDouble (roundToDouble n * roundToDouble (Nat.pow 10 e.toNat))

namespace NumberText

/-- The exponent as a number. One that does not fit 64 bits is cut, which leaves it too large for
any double. -/
def exponentValue (t : NumberText) : Int :=
  match t.exponent with
  | none => 0
  | some (minus, ds) =>
    let e := (appendDigits 0 0 ds).1
    if minus then -(e : Int) else e

/-- Whether the number is too large for a double. -/
def isTooLarge (t : NumberText) : Bool :=
  let (n, i) := appendDigits 0 0 t.whole
  let (m, j) := appendDigits n 0 (t.fraction.getD [])
  roundsToInfinity m ((t.whole.length : Int) - i - j + t.exponentValue)

/-- The integer that the text stands for, if it counts as one. -/
def integer? (t : NumberText) : Option Int :=
  let (n, count) := appendDigits 0 0 t.whole
  if t.fraction.isSome || t.exponent.isSome || count < t.whole.length then none
  else if t.negative then
    (if 0 < n && n ≤ 0x8000000000000000 then some (-(n : Int)) else none)
  else some n

end NumberText

/-! ### Reading -/

namespace Reader

/-- The next byte; `atEnd` if there is none. -/
def nextOr (atEnd : Fault) : Reader UInt8 := do
  match ← peek with
  | none => fail atEnd
  | some b => pure b

/-- Whether `p` holds of the next byte, which is then taken. -/
def takeIf (p : UInt8 → Bool) : Reader Bool := do
  match ← peek with
  | none => pure false
  | some b => if p b then do skip; pure true else pure false

/-- One digit or more. -/
def someDigits (atEnd : Fault) : Reader Bytes := do
  let b ← nextOr atEnd
  if Ascii.isDigit b then digits else fail .malformed

/-- The digits of a whole part: a zero alone, or digits that do not start with one. -/
def wholePart (atEnd : Fault) : Reader Bytes := do
  let ds ← someDigits atEnd
  match ds with
  | d :: _ :: _ => if d = Ascii.zero then fail .malformed else pure ds
  | _ => pure ds

/-- A number. The fault `atEnd` is the one to report where the input ends inside it. -/
def numberText (atEnd : Fault) : Reader NumberText := do
  let negative ← takeIf (· == Ascii.minus)
  let whole ← wholePart atEnd
  let fraction ←
    if ← takeIf (· == Ascii.point) then some <$> someDigits atEnd else pure none
  let exponent ←
    if ← takeIf (fun b => b == 0x65 || b == 0x45) then do
      let minus ← takeIf (· == Ascii.minus)
      if !minus then discard <| takeIf (· == Ascii.plus)
      let ds ← someDigits atEnd
      pure (some (minus, ds))
    else pure none
  pure { negative, whole, fraction, exponent }

/-- A number that is kept. -/
def number : Reader Number := do
  let t ← numberText .unfinished
  match t.integer? with
  | some n => pure (.integer n)
  | none => if t.isTooLarge then fail .malformed else pure .real

def skipNumber : Reader Unit := discard (numberText .malformed)

end Reader

end DiskTier.Json
