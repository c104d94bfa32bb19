import DiskTier.Bytes

/-!
# Decimal numbers

Numbers are written in decimal with no leading zero. `parse?` reads a natural number in the form
that settings take: one optional plus sign, then one digit or more, and nothing else.
-/

namespace DiskTier.Decimal

/-- The digits of `n`. -/
def ofNat (n : Nat) : Bytes := (Nat.toDigits 10 n).map fun c => UInt8.ofNat c.toNat

/-- The digits of `n`, after a minus sign if it is negative. -/
def ofInt : Int → Bytes
  | .ofNat n => ofNat n
  | .negSucc n => Ascii.minus :: ofNat (n + 1)

/-- The value of a sequence of decimal digits; `none` if another character stands in it. -/
def digitsValue? : List Char → Option Nat
  | cs => if cs.all Char.isDigit then some (Nat.ofDigitChars 10 cs 0) else none

/-- The number that `s` names, if it is at most `limit`. -/
def parse? (limit : Nat) (s : String) : Option Nat :=
  let digits := match s.toList with
    | '+' :: cs => cs
    | cs => cs
  if digits.isEmpty then none
  else (digitsValue? digits).filter (· ≤ limit)

end DiskTier.Decimal
