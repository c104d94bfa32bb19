import DiskTier.Json.Reader
import DiskTier.Text.Utf8

/-!
# Texts between quotes

`textBody` reads a text whose opening quote is taken, and `skipText` passes over one. The first
resolves escapes, joins surrogate halves and wants the bytes to be UTF-8, which it checks at the
closing quote; the second knows where the text ends and no more.
-/

namespace DiskTier.Json.Reader

/-- Four hexadecimal digits. -/
def codeUnit : Reader Nat where
  run
    | a :: b :: c :: d :: r =>
      match Ascii.hexValue? a, Ascii.hexValue? b, Ascii.hexValue? c, Ascii.hexValue? d with
      | some a, some b, some c, some d => .ok (((a * 16 + b) * 16 + c) * 16 + d, r)
      | _, _, _, _ => .error .malformed
    | _ => .error .unfinished
  suffix {s n r} h := by
    split at h
    · next a b c d t =>
      split at h
      · cases h; exact ⟨[a, b, c, d], rfl⟩
      · cases h
    · cases h

/-- The first of two code units that make one character. -/
def isLeading (n : Nat) : Bool := 0xD800 ≤ n && n ≤ 0xDBFF

/-- The second of two code units that make one character. -/
def isTrailing (n : Nat) : Bool := 0xDC00 ≤ n && n ≤ 0xDFFF

/-- The character of one code unit, or of two where the first is a leading half. -/
def codePoint : Reader Char := do
  let n ← codeUnit
  if isTrailing n then fail .malformed
  else if isLeading n then
    exactly [Ascii.backslash, Ascii.letterU]
    let m ← codeUnit
    if isTrailing m then
      pure (Char.ofNat (0x10000 + (n - 0xD800) * 0x400 + (m - 0xDC00)))
    else fail .malformed
  else pure (Char.ofNat n)

/-- The character that a one-letter escape stands for. -/
def shortEscaped? (letter : UInt8) : Option Char :=
  if letter = Ascii.quote then some '"'
  else if letter = Ascii.backslash then some '\\'
  else if letter = Ascii.slash then some '/'
  else if letter = 0x62 then some '\x08'
  else if letter = 0x66 then some '\x0c'
  else if letter = 0x6E then some '\n'
  else if letter = 0x72 then some '\r'
  else if letter = 0x74 then some '\t'
  else none

/-- The byte behind a backslash. -/
def escapeLetter : Reader UInt8 := do
  match ← peek with
  | none => fail .unfinished
  | some b => do skip; pure b

/-- The character of an escape whose backslash is taken. -/
def escaped : Reader Char := do
  let b ← escapeLetter
  match shortEscaped? b with
  | some c => pure c
  | none => if b = Ascii.letterU then codePoint else fail .malformed

/-- Passes over an escape whose backslash is taken. -/
def skipEscaped : Reader Unit := do
  let b ← escapeLetter
  match shortEscaped? b with
  | some _ => pure ()
  | none => if b = Ascii.letterU then discard codeUnit else fail .malformed

/-- The byte `b` of a text, after the bytes of `acc` in reverse. -/
def textStep (b : UInt8) (acc : Bytes) : Reader (Bytes ⊕ Bytes) :=
  if b = Ascii.quote then pure (.inr acc.reverse)
  else if b = Ascii.backslash then do
    let c ← escaped
    pure (.inl ((Utf8.encodeChar c).reverse ++ acc))
  else if b < 0x20 then fail .malformed
  else pure (.inl (b :: acc))

/-- A text whose opening quote is taken. -/
def textBody : Reader String := do
  match Utf8.decode? (← loop textStep []) with
  | some s => pure s
  | none => fail .malformed

/-- Passes over the byte `b` of a text. -/
def skipTextStep (b : UInt8) (_ : Unit) : Reader (Unit ⊕ Unit) :=
  if b = Ascii.quote then pure (.inr ())
  else if b = Ascii.backslash then do
    skipEscaped
    pure (.inl ())
  else if b < 0x20 then fail .malformed
  else pure (.inl ())

/-- Passes over a text whose opening quote is taken. -/
def skipText : Reader Unit := loop skipTextStep ()

end DiskTier.Json.Reader
