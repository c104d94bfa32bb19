/-!
# Bytes

Everything that reaches a file is a list of bytes. The named bytes below are the ones that the
formats of this library give a meaning to.
-/

namespace DiskTier

/-- The contents of a record, a file or a message. -/
abbrev Bytes := List UInt8

namespace Ascii

def tab : UInt8 := 0x09
def lineFeed : UInt8 := 0x0A
def carriageReturn : UInt8 := 0x0D
def space : UInt8 := 0x20
/-- The double quote, which opens and closes a text. -/
def quote : UInt8 := 0x22
/-- The percent sign, which starts an escaped byte in a path. -/
def percent : UInt8 := 0x25
/-- The number sign, which starts the fragment of a request target. -/
def numberSign : UInt8 := 0x23
def plus : UInt8 := 0x2B
/-- The comma, between the items of a list and the members of a record. -/
def comma : UInt8 := 0x2C
def minus : UInt8 := 0x2D
def point : UInt8 := 0x2E
def slash : UInt8 := 0x2F
def zero : UInt8 := 0x30
/-- The colon, between a member's name and its value. -/
def colon : UInt8 := 0x3A
/-- The question mark, which starts the query of a request target. -/
def questionMark : UInt8 := 0x3F
/-- The backslash, which starts an escape. -/
def backslash : UInt8 := 0x5C
def openList : UInt8 := 0x5B
def closeList : UInt8 := 0x5D
def openRecord : UInt8 := 0x7B
def closeRecord : UInt8 := 0x7D
def tilde : UInt8 := 0x7E
/-- The letter that introduces a code unit in an escape. -/
def letterU : UInt8 := 0x75

/-- One of the ten decimal digits. -/
def isDigit (b : UInt8) : Bool := 0x30 ≤ b && b ≤ 0x39

def isLetter (b : UInt8) : Bool := (0x41 ≤ b && b ≤ 0x5A) || (0x61 ≤ b && b ≤ 0x7A)

def digitValue (b : UInt8) : Nat := b.toNat - 0x30

/-- The value of a hexadecimal digit, of either case. -/
def hexValue? (b : UInt8) : Option Nat :=
  if 0x30 ≤ b && b ≤ 0x39 then some (b.toNat - 0x30)
  else if 0x41 ≤ b && b ≤ 0x46 then some (b.toNat - 0x37)
  else if 0x61 ≤ b && b ≤ 0x66 then some (b.toNat - 0x57)
  else none

/-- The lower-case hexadecimal digit of a value below sixteen. -/
def hexDigit (n : Nat) : UInt8 :=
  if n < 10 then UInt8.ofNat (0x30 + n) else UInt8.ofNat (0x57 + n)

theorem hexValue?_hexDigit : ∀ n < 16, hexValue? (hexDigit n) = some n := by decide

end Ascii

end DiskTier
