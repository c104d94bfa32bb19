import DiskTier.Text.Utf8

/-!
# Percent-encoded texts

In a path a byte may be written as a percent sign and two hexadecimal digits. A percent sign that no
two digits follow stands for itself.
-/

namespace DiskTier.Http.Percent

/-- The bytes that an encoded text stands for. -/
def decodeBytes : Bytes → Bytes
  | [] => []
  | [a] => [a]
  | [a, b] => [a, b]
  | a :: b :: c :: s =>
    if a = Ascii.percent then
      match Ascii.hexValue? b, Ascii.hexValue? c with
      | some m, some n => UInt8.ofNat (16 * m + n) :: decodeBytes s
      | _, _ => a :: decodeBytes (b :: c :: s)
    else a :: decodeBytes (b :: c :: s)

def decode? (s : Bytes) : Option String := Utf8.decode? (decodeBytes s)

end DiskTier.Http.Percent
